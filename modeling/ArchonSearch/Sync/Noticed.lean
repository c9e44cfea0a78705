import ArchonSearch.Sync.Edits

/-!
# Which edits a sync notices

A modification time that is recorded for a collection that is `DONE` should be that of the version
of the file that is stored (`State.NoEditLost`): a file that the next comparison does not list is
then stored as it is now. The code reads a file first and samples its modification time later, and
it relies on more than that between the two: a full ingest that goes on after an earlier one
samples the files that were processed then, a file without chunks leaves the rows of its old
content, an ingest that fails may have deleted the old rows, and an update starts from the
modification times that were read before it had the lock.

`Careful` says of each step that it does none of this harm. Then no edit is lost
(`noEditLost_of_careful`), although files are edited while a sync runs, processes die, and updates
fail. An edit between the reading of a file and the sampling is lost for good (`edit_lost`).
-/

namespace ArchonSearch.Sync.Edits

open Lib Function List Option

variable {γ τ χ : Type} (setup : Setup γ χ) (root : Path)

/-! ### The property -/

def Stored (history : List (Path × File γ τ)) (rows : Rows χ) (path : Path) (mtime : τ) : Prop :=
  ∃ file, (path, file) ∈ history ∧ file.mtime = mtime ∧
    chunksIn rows path = fileChunks setup path file.content

def State.mtimes (s : State γ τ χ) : Dict Path τ := loadFileMtimes s.progress

/-- The indexing state of the collection is `DONE`. -/
def State.IsDone (s : State γ τ χ) : Prop :=
  (s.progress.map CollectionProgress.status) = some .done

/-- **No edit is lost**: a file that the next comparison passes over is stored as it is. -/
structure State.NoEditLost [DecidableEq τ] (s : State γ τ χ) : Prop where
  recorded : s.IsDone → ∀ path mtime, Dict.get s.mtimes path = some mtime →
    Stored setup s.history s.rows path mtime
  noticed : s.IsDone → ∀ activeModel, ∀ path ∈ iterEligibleFiles setup s.files root,
    path ∉ (tasksOf (checkCollectionChanges setup s.files root s.progress activeModel)).map
      Task.path → chunksIn s.rows path = chunksOf setup s.files path

/-! ### The condition -/

def Writer.IsReading (writer : Writer γ τ) (path : Path) : Prop :=
  writer.reading.isSome = true ∧ writer.current = some path

/-- The modification time of the file is still to be sampled, and its content was read. -/
def Writer.Awaits (writer : Writer γ τ) (path : Path) : Prop :=
  writer.IsReading path ∨
    match writer with
    | ingesting run => path ∈ run.resumePaths ++ run.newPaths
    | applying _ => False

/-- A full ingest passes over a file that is gone when it samples the modification times; an
update keeps the one it had. -/
def Writer.MayRemove (writer : Writer γ τ) (path : Path) : Prop :=
  match writer with
  | ingesting _ => True
  | applying run => ¬ (applying run).IsReading path

def Writer.recorded (writer : Writer γ τ) (path : Path) : Option τ :=
  match writer with
  | ingesting _ => none
  | applying run => Dict.get run.draft.fileMtimes path

def Untouched (chunks : List χ) (written : Option ℕ) : Prop := written = none ∨ chunks = []

def State.UpToDate (s : State γ τ χ) (path : Path) : Prop :=
  ∀ file ∈ Dict.get s.files path, chunksIn s.rows path = fileChunks setup path file.content

/-- A sync may take the lock: the files that are passed over are stored as they are, and the
indexing state that was read is the one there is. -/
def State.MayBegin (s : State γ τ χ) : Waiting τ → Prop
  | .loaded resumePaths => ∀ path ∈ resumePaths, s.UpToDate setup path
  | .read _ _ => True
  | .checked _ _ saves => saves = s.saves

def State.MayFinish (s : State γ τ χ) (writer : Writer γ τ) (path : Path) : Outcome → Prop
  | .returns => chunksRead setup path writer.reading = [] → chunksIn s.rows path = []
  | .fails written => (writer.recorded path).isSome = true →
      s.interrupted = false ∧ Untouched (chunksRead setup path writer.reading) written
  | .raises written | .dies written => ∀ mtime ∈ writer.recorded path,
      (Dict.get s.files path).map File.mtime = some mtime →
        Untouched (chunksRead setup path writer.reading) written

/-- **What the code relies on**, step by step. -/
def Careful (s : State γ τ χ) : Event γ τ → Prop
  | .edit path _ => ∀ writer ∈ s.writer, ¬ writer.Awaits path
  | .remove path => ∀ writer ∈ s.writer, writer.MayRemove path
  | .begin i _ => ∀ waiting ∈ s.waiting i, s.MayBegin setup waiting
  | .finish outcome => ∀ writer ∈ s.writer, ∀ path ∈ writer.current,
      s.MayFinish setup writer path outcome
  | .reset | .load _ | .readState _ | .check _ _ | .list | .read | .settle _ | .die => True

/-! ### Documents -/

variable {setup} {root}
variable {rows : Rows χ} {path : Path} {chunks : List χ} {written : Option ℕ}

theorem chunksIn_writeChunks : chunksIn (writeChunks rows path chunks written) =
    update (chunksIn rows) path (writtenChunks (chunksIn rows path) chunks written) := by
  cases written with
  | none => exact (update_eq_self path _).symm
  | some n =>
    simp only [writeChunks, writtenChunks]
    split_ifs
    · exact (update_eq_self path _).symm
    · exact chunksIn_replace rows path _

variable {other : Path}

theorem chunksIn_writeChunks_of_ne (h : other ≠ path) :
    chunksIn (writeChunks rows path chunks written) other = chunksIn rows other := by
  rw [chunksIn_writeChunks, update_of_ne h]

theorem chunksIn_deleteRows_of_ne (h : other ≠ path) :
    chunksIn (deleteRows rows path) other = chunksIn rows other := by
  rw [chunksIn_deleteRows, update_of_ne h]

/-- An ingest that returns `ok` has replaced the document. -/
theorem chunksIn_writeChunks_length (h : chunks = [] → chunksIn rows path = []) :
    chunksIn (writeChunks rows path chunks (some chunks.length)) path = chunks := by
  rw [chunksIn_writeChunks, update_self, writtenChunks_length h]

theorem writeChunks_of_untouched (h : Untouched chunks written) :
    writeChunks rows path chunks written = rows := by
  cases written with
  | none => rfl
  | some n =>
    obtain h | h := h
    · cases h
    · exact if_pos h

theorem chunksRead_some (content : γ) :
    chunksRead setup path (some content) = fileChunks setup path content := rfl

/-! ### The invariant -/

/-- The history of the files: what there is has been, and no two versions of a file have one
modification time. -/
structure Versions (files : Dict Path (File γ τ)) (history : List (Path × File γ τ)) :
    Prop where
  present : ∀ path file, Dict.get files path = some file → (path, file) ∈ history
  distinct : ∀ path file file', (path, file) ∈ history → (path, file') ∈ history →
    file.mtime = file'.mtime → file = file'

/-- The next comparison lists a file for which this modification time is recorded, and so does
every later one. -/
def Overdue (setup : Setup γ χ) (root : Path) (files : Dict Path (File γ τ))
    (history : List (Path × File γ τ)) (path : Path) (mtime : τ) : Prop :=
  (∃ file, (path, file) ∈ history ∧ file.mtime = mtime) ∧
    ¬ (isEligible setup root path = true ∧ (Dict.get files path).map File.mtime = some mtime)

/-- A sync that waits. Where the indexing state was not written since, and the lock is free, it
has read the state that there is, and lists the files that are not as they are recorded. -/
def WaitingSound (setup : Setup γ χ) (root : Path) (s : State γ τ χ) : Waiting τ → Prop
  | .loaded _ => True
  | .read progress saves => saves ≤ s.saves ∧
      (saves = s.saves → s.writer = none → loadFileMtimes progress = s.mtimes)
  | .checked changes fileMtimes saves => saves ≤ s.saves ∧
      ((tasksOf changes).map Task.path).Nodup ∧
      (saves = s.saves → s.writer = none → fileMtimes = s.mtimes ∧
        (∀ path mtime, Task.delete path ∈ tasksOf changes →
          Dict.get fileMtimes path = some mtime →
          Overdue setup root s.files s.history path mtime) ∧
        ∀ path mtime, Dict.get fileMtimes path = some mtime →
          path ∈ (tasksOf changes).map Task.path ∨ Stored setup s.history s.rows path mtime)

structure IngestSound (setup : Setup γ χ) (s : State γ τ χ) (run : IngestRun γ) : Prop where
  unrecorded : ∀ path, Dict.get s.mtimes path = none
  uninterrupted : s.interrupted = false
  upToDate : ∀ path ∈ run.resumePaths ++ run.newPaths, s.UpToDate setup path
  unlisted : run.todo = none → run.newPaths = []
  todo : ∀ todo, run.todo = some todo →
    todo.Nodup ∧ ∀ path ∈ todo, path ∉ run.resumePaths ++ run.newPaths
  reading : ∀ path content, (Writer.ingesting run : Writer γ τ).current = some path →
    run.reading = some content → ∀ file, Dict.get s.files path = some file →
    file.content = content

structure ApplySound (setup : Setup γ χ) (root : Path) (s : State γ τ χ) (run : ApplyRun γ τ) :
    Prop where
  nodup : (run.todo.map Task.path).Nodup
  draft : ∀ path mtime, Dict.get run.draft.fileMtimes path = some mtime →
    Stored setup s.history s.rows path mtime ∨ s.interrupted = true ∧
      Overdue setup root s.files s.history path mtime ∧ path ∈ run.todo.map Task.path
  deleted : ∀ path mtime, Task.delete path ∈ run.todo →
    Dict.get run.draft.fileMtimes path = some mtime →
    Overdue setup root s.files s.history path mtime
  saved : ∀ path ∈ run.todo.map Task.path,
    Dict.get s.mtimes path = Dict.get run.draft.fileMtimes path
  reading : ∀ path content, (Writer.applying run).current = some path →
    run.reading = some content → ∃ file, Dict.get s.files path = some file ∧
    file.content = content

def WriterSound (setup : Setup γ χ) (root : Path) (s : State γ τ χ) : Writer γ τ → Prop
  | .ingesting run => IngestSound setup s run
  | .applying run => ApplySound setup root s run

structure Sound (setup : Setup γ χ) (root : Path) (s : State γ τ χ) : Prop where
  versions : Versions s.files s.history
  /-- Nobody writes a collection that is `DONE`. -/
  done : s.IsDone → s.writer = none ∧ s.interrupted = false
  waiting : ∀ i w, s.waiting i = some w → WaitingSound setup root s w
  saved : ∀ path mtime, Dict.get s.mtimes path = some mtime →
    Stored setup s.history s.rows path mtime ∨ Overdue setup root s.files s.history path mtime
  settled : s.writer = none → s.interrupted = false → ∀ path mtime,
    Dict.get s.mtimes path = some mtime → Stored setup s.history s.rows path mtime
  writer : ∀ writer, s.writer = some writer → WriterSound setup root s writer

/-! ### Files -/

variable {s s' : State γ τ χ} {mtime : τ} {history history' : List (Path × File γ τ)}
  {files files' : Dict Path (File γ τ)}

theorem Stored.mono (h : Stored setup history rows path mtime)
    (hsub : ∀ version ∈ history, version ∈ history') :
    Stored setup history' rows path mtime := by
  obtain ⟨file, hm, hmt, hchs⟩ := h
  exact ⟨file, hsub _ hm, hmt, hchs⟩

theorem Stored.congr {rows' : Rows χ} (h : Stored setup history rows path mtime)
    (hrw : chunksIn rows' path = chunksIn rows path) :
    Stored setup history rows' path mtime := by
  obtain ⟨file, hm, hmt, hchs⟩ := h
  exact ⟨file, hm, hmt, hrw.trans hchs⟩

/-- A recorded modification time is that of a version. -/
theorem exists_version (h : Stored setup history rows path mtime ∨
    Overdue setup root files history path mtime) :
    ∃ file, (path, file) ∈ history ∧ file.mtime = mtime := by
  obtain ⟨file, hm, hmt, -⟩ | ⟨hver, -⟩ := h
  · exact ⟨file, hm, hmt⟩
  · exact hver

def Onward (files files' : Dict Path (File γ τ)) (history history' : List (Path × File γ τ)) :
    Prop :=
  (∀ version ∈ history, version ∈ history') ∧
    ∀ path file, (path, file) ∈ history →
      (Dict.get files' path).map File.mtime = some file.mtime →
      (Dict.get files path).map File.mtime = some file.mtime

theorem Overdue.mono (h : Overdue setup root files history path mtime)
    (hon : Onward files files' history history') :
    Overdue setup root files' history' path mtime := by
  obtain ⟨⟨file, hm, rfl⟩, hnot⟩ := h
  exact ⟨⟨file, hon.1 _ hm, rfl⟩, fun hnow => hnot ⟨hnow.1, hon.2 path file hm hnow.2⟩⟩

theorem WaitingSound.mono {w : Waiting τ} (h : WaitingSound setup root s w)
    (hle : s.saves ≤ s'.saves)
    (hfr : s'.saves = s.saves → s'.writer = none → s.writer = none ∧ s'.mtimes = s.mtimes ∧
      (∀ path mtime, Stored setup s.history s.rows path mtime →
        Stored setup s'.history s'.rows path mtime) ∧
      ∀ path mtime, Overdue setup root s.files s.history path mtime →
        Overdue setup root s'.files s'.history path mtime) : WaitingSound setup root s' w := by
  cases w with
  | loaded _ => trivial
  | read progress saves =>
    obtain ⟨hsvs, h⟩ := h
    refine ⟨hsvs.trans hle, fun hnow hn => ?_⟩
    have hsa : s'.saves = s.saves := le_antisymm (hnow ▸ hsvs) hle
    obtain ⟨hwr, hmts, -⟩ := hfr hsa hn
    rw [h (hnow.trans hsa) hwr, hmts]
  | checked changes fileMtimes saves =>
    obtain ⟨hsvs, hnd, h⟩ := h
    refine ⟨hsvs.trans hle, hnd, fun hnow hn => ?_⟩
    have hsa : s'.saves = s.saves := le_antisymm (hnow ▸ hsvs) hle
    obtain ⟨hwr, hmts, hsto, hover⟩ := hfr hsa hn
    obtain ⟨heq, hdel, hoth⟩ := h (hnow.trans hsa) hwr
    refine ⟨heq.trans hmts.symm, fun path mtime htask hg => ?_, fun path mtime hg => ?_⟩
    · exact hover path mtime (hdel path mtime htask hg)
    · exact (hoth path mtime hg).imp_right (hsto path mtime)

/-- **The files change**: a file whose content was read is left alone until its modification
time is sampled. -/
theorem Sound.setFiles (hs : Sound setup root s) (hver : Versions files' history')
    (hon : Onward s.files files' s.history history')
    (hing : ∀ run path, s.writer = some (.ingesting run) →
      (Writer.ingesting run : Writer γ τ).Awaits path →
      ∀ file, Dict.get files' path = some file → Dict.get s.files path = some file)
    (happ : ∀ run path, s.writer = some (.applying run) →
      (Writer.applying run).IsReading path → Dict.get files' path = Dict.get s.files path) :
    Sound setup root { s with files := files', history := history' } where
  versions := hver
  done := hs.done
  waiting i w hw := (hs.waiting i w hw).mono le_rfl fun _ hn =>
    ⟨hn, rfl, fun _ _ h => h.mono hon.1, fun _ _ h => h.mono hon⟩
  saved path mtime hg :=
    (hs.saved path mtime hg).imp (fun h => h.mono hon.1) fun h => h.mono hon
  settled hn hwh path mtime hg := (hs.settled hn hwh path mtime hg).mono hon.1
  writer writer hwr := by
    have hsd := hs.writer writer hwr
    cases writer with
    | ingesting run =>
      refine { hsd with upToDate := fun path hm file hf => ?_,
                           reading := fun path content hcur hrd file hf => ?_ }
      · exact hsd.upToDate path hm file (hing run path hwr (Or.inr hm) file hf)
      · refine hsd.reading path content hcur hrd file ?_
        refine hing run path hwr (Or.inl ⟨?_, hcur⟩) file hf
        exact isSome_iff_exists.mpr ⟨content, hrd⟩
    | applying run =>
      refine { hsd with draft := fun path mtime hg => ?_,
                           deleted := fun path mtime htask hg => ?_,
                           reading := fun path content hcur hrd => ?_ }
      · refine (hsd.draft path mtime hg).imp (fun h => h.mono hon.1) ?_
        rintro ⟨hint, hover, hm⟩
        exact ⟨hint, hover.mono hon, hm⟩
      · exact (hsd.deleted path mtime htask hg).mono hon
      · obtain ⟨file, hf, hcon⟩ := hsd.reading path content hcur hrd
        refine ⟨file, (happ run path hwr ⟨?_, hcur⟩).trans hf, hcon⟩
        exact isSome_iff_exists.mpr ⟨content, hrd⟩

variable {file : File γ τ}

theorem sound_edit [DecidableEq τ] (hs : Sound setup root s)
    (hcar : ∀ writer ∈ s.writer, ¬ writer.Awaits path)
    (h : s.edit path file = some s') : Sound setup root s' := by
  unfold State.edit at h
  split_ifs at h with hfr
  cases h
  have hw : ∀ version ∈ s.history, version.1 = path → version.2.mtime ≠ file.mtime := by
    intro version hm hp hmt
    refine hfr (List.any_eq_true.mpr ⟨version, hm, ?_⟩)
    simp [hp, hmt]
  refine hs.setFiles ⟨fun q f hf => ?_, fun q f f' hf hf' heq => ?_⟩
    ⟨fun v hv => mem_append_left _ hv, fun q f hm hf => ?_⟩ ?_ ?_
  · rw [Dict.get_insert] at hf
    split_ifs at hf with hq
    · cases hf
      rw [hq]
      exact mem_append_right _ mem_cons_self
    · exact mem_append_left _ (hs.versions.present q f hf)
  · -- a version that is new has a new modification time
    simp only [mem_append, mem_singleton, Prod.mk.injEq] at hf hf'
    obtain hf | ⟨rfl, rfl⟩ := hf
    · obtain hf' | ⟨rfl, rfl⟩ := hf'
      · exact hs.versions.distinct q f f' hf hf' heq
      · exact absurd heq (hw _ hf rfl)
    · obtain hf' | ⟨-, rfl⟩ := hf'
      · exact absurd heq.symm (hw _ hf' rfl)
      · rfl
  · rw [Dict.get_insert] at hf
    split_ifs at hf with hq
    · exact absurd (some.inj hf).symm (hw _ hm hq)
    · exact hf
  · intro run q hwr hawaits f hf
    have hne : q ≠ path := fun hq => hcar _ hwr (hq ▸ hawaits)
    rwa [Dict.get_insert_of_ne _ hne] at hf
  · intro run q hwr hrd
    have hne : q ≠ path := fun hq => hcar _ hwr (Or.inl (hq ▸ hrd))
    exact Dict.get_insert_of_ne _ hne _

theorem sound_remove (hs : Sound setup root s)
    (hcar : ∀ writer ∈ s.writer, writer.MayRemove path) :
    Sound setup root { s with files := s.files.erase path } := by
  have hget {q : Path} {f : File γ τ} (hf : Dict.get (s.files.erase path) q = some f) :
      Dict.get s.files q = some f := by
    rw [Dict.get_erase] at hf
    split_ifs at hf
    exact hf
  refine hs.setFiles ⟨fun q f hf => ?_, hs.versions.distinct⟩
    ⟨fun v hv => hv, fun q f _ hf => ?_⟩ (fun run q _ _ f hf => hget hf) ?_
  · exact hs.versions.present q f (hget hf)
  · obtain ⟨g, hg, hmt⟩ := map_eq_some_iff.mp hf
    rw [hget hg, map_some, hmt]
  · intro run q hwr hrd
    have hne : q ≠ path := fun hq => hcar _ hwr (hq ▸ hrd)
    rw [Dict.get_erase, if_neg hne]

/-! ### Syncs that wait -/

theorem map_path_tasksOf (changes : Changes) : (tasksOf changes).map Task.path =
    changes.deletedPaths ++ changes.changedFiles ++ changes.newFiles := by
  simp [tasksOf, List.map_map, comp_def, Task.path]

variable {changes : Changes}

theorem delete_mem_tasksOf :
    Task.delete path ∈ tasksOf changes ↔ path ∈ changes.deletedPaths := by
  simp [tasksOf]

theorem nodup_tasksOf (h : changes.Consistent setup files root) :
    ((tasksOf changes).map Task.path).Nodup := by
  rw [map_path_tasksOf, append_assoc]
  refine nodup_append'.mpr ⟨h.nodupDeleted, nodup_append'.mpr
    ⟨h.nodupChanged, h.nodupNew, h.disjoint⟩, fun path hdel hm => ?_⟩
  rcases mem_append.mp hm with hm | hm
  · exact h.deleted path hdel (h.changed path hm)
  · exact h.deleted path hdel (h.new path hm)

theorem isEligible_of_present (hf : Dict.get files path = some file) :
    path ∈ iterEligibleFiles setup files root ↔ isEligible setup root path = true := by
  rw [mem_iterEligibleFiles, hf]
  simp

variable {activeModel : String}

/-- **A file that the comparison does not list** has the modification time that is recorded. -/
theorem unlisted_iff [DecidableEq τ] {progress : Option (CollectionProgress τ)}
    (hg : Dict.get (loadFileMtimes progress) path = some mtime)
    (hm : path ∉ (tasksOf (checkCollectionChanges setup files root progress
      activeModel)).map Task.path) :
    isEligible setup root path = true ∧ (Dict.get files path).map File.mtime = some mtime := by
  rw [map_path_tasksOf, append_assoc, mem_append, not_or] at hm
  obtain ⟨hdel, hlis⟩ := hm
  have helig : path ∈ iterEligibleFiles setup files root := by
    by_contra hnot
    exact hdel (mem_deletedPaths.mpr ⟨by rw [hg]; rfl, hnot⟩)
  obtain ⟨file, hf, htest⟩ := mem_iterEligibleFiles.mp helig
  have hcur : isCurrent files (loadFileMtimes progress) path = true := by
    by_contra hnot
    exact hlis (mem_changed_append_new.mpr ⟨helig, Or.inr (Bool.not_eq_true _ ▸ hnot)⟩)
  rw [isCurrent_eq_true_iff hf, hg] at hcur
  exact ⟨htest, by rw [hf, map_some, some.inj hcur]⟩

/-- A sync waits for the lock, or does not any more. -/
theorem Sound.setWaiting (hs : Sound setup root s) (i : ℕ) (next : Option (Waiting τ))
    (hx : ∀ w, next = some w → WaitingSound setup root s w) :
    Sound setup root { s with waiting := update s.waiting i next } where
  versions := hs.versions
  done := hs.done
  waiting j w hw := by
    replace hw : update s.waiting i next j = some w := hw
    have heq : WaitingSound setup root s w := by
      by_cases hj : j = i
      · rw [hj, update_self] at hw
        exact hx w hw
      · rw [update_of_ne hj] at hw
        exact hs.waiting j w hw
    exact heq.mono le_rfl fun _ hn => ⟨hn, rfl, fun _ _ h => h, fun _ _ h => h⟩
  saved := hs.saved
  settled := hs.settled
  writer writer hwr := by
    have hsd := hs.writer writer hwr
    cases writer with
    | ingesting run => exact { hsd with }
    | applying run => exact { hsd with }

/-- **The comparison** lists every file that is not as it is recorded. -/
theorem sound_check [DecidableEq τ] {i : ℕ} (hs : Sound setup root s)
    (h : s.check setup root i activeModel = some s') : Sound setup root s' := by
  unfold State.check at h
  split at h <;> cases h
  rename_i progress saves hrd
  refine hs.setWaiting i _ fun w hw => ?_
  split_ifs at hw
  cases hw
  obtain ⟨hsvs, heq⟩ := hs.waiting i _ hrd
  refine ⟨hsvs, nodup_tasksOf consistent_checkCollectionChanges, fun hnow hn => ?_⟩
  have hmts := heq hnow hn
  refine ⟨hmts, fun path mtime htask hg => ⟨?_, ?_⟩, fun path mtime hg => ?_⟩
  · rw [hmts] at hg
    exact exists_version (hs.saved path mtime hg)
  · -- it is not eligible, or not there
    rintro ⟨helig, hpres⟩
    obtain ⟨file, hf, -⟩ := map_eq_some_iff.mp hpres
    exact (mem_deletedPaths.mp (delete_mem_tasksOf.mp htask)).2
      ((isEligible_of_present hf).mpr helig)
  · by_contra hnot
    rw [not_or] at hnot
    have hg' := hg
    rw [hmts] at hg'
    obtain hsto | hover := hs.saved path mtime hg'
    · exact hnot.2 hsto
    · exact hover.2 (unlisted_iff hg hnot.1)

theorem mtimes_reset (s : State γ τ χ) :
    ({ s with progress := s.progress.map resetInProgress } : State γ τ χ).mtimes = s.mtimes := by
  unfold State.mtimes loadFileMtimes resetInProgress
  cases s.progress with
  | none => rfl
  | some progress =>
    simp only [map_some]
    split_ifs
    · rfl
    · rfl

theorem isDone_of_reset (s : State γ τ χ)
    (h : ({ s with progress := s.progress.map resetInProgress } : State γ τ χ).IsDone) :
    s.IsDone := by
  unfold State.IsDone resetInProgress at *
  cases hprog : s.progress with
  | none =>
    rw [hprog] at h
    cases h
  | some progress =>
    rw [hprog] at h
    simp only [map_some, some.injEq] at h ⊢
    split_ifs at h
    exact h

theorem sound_reset (hs : Sound setup root s) :
    Sound setup root { s with progress := s.progress.map resetInProgress } := by
  have hmts := mtimes_reset s
  refine ⟨hs.versions, fun h => hs.done (isDone_of_reset s h), fun i w hw => ?_, ?_, ?_, ?_⟩
  · exact (hs.waiting i w hw).mono le_rfl fun _ hn =>
      ⟨hn, hmts, fun _ _ h => h, fun _ _ h => h⟩
  · rw [hmts]
    exact hs.saved
  · rw [hmts]
    exact hs.settled
  · intro writer hwr
    have hsd := hs.writer writer hwr
    cases writer with
    | ingesting run => exact { hsd with unrecorded := hmts ▸ hsd.unrecorded }
    | applying run => exact { hsd with saved := hmts ▸ hsd.saved }

/-! ### Steps of the writer -/

theorem Sound.move (hs : Sound setup root s) (hfs : s'.files = s.files)
    (hhis : s'.history = s.history)
    (hwa : ∀ i w, s'.waiting i = some w → s.waiting i = some w ∧ s.saves ≤ s'.saves ∧
      (s'.saves = s.saves → s'.writer ≠ none))
    (hd : s'.IsDone → s'.writer = none ∧ s'.interrupted = false)
    (hsav : ∀ path mtime, Dict.get s'.mtimes path = some mtime →
      Stored setup s.history s'.rows path mtime ∨ Overdue setup root s.files s.history path mtime)
    (hst : s'.writer = none → s'.interrupted = false → ∀ path mtime,
      Dict.get s'.mtimes path = some mtime → Stored setup s.history s'.rows path mtime)
    (hwr : ∀ writer, s'.writer = some writer → WriterSound setup root s' writer) :
    Sound setup root s' where
  versions := by
    rw [hfs, hhis]
    exact hs.versions
  done := hd
  waiting i w hw := by
    obtain ⟨hw, hle, hbusy⟩ := hwa i w hw
    exact (hs.waiting i w hw).mono hle fun heq hn => absurd hn (hbusy heq)
  saved := by
    rw [hfs, hhis]
    exact hsav
  settled := by
    rw [hhis]
    exact hst
  writer := hwr

/-- A collection that is written is not `DONE`. -/
theorem Sound.not_isDone (hs : Sound setup root s) {writer : Writer γ τ}
    (hwr : s.writer = some writer) : ¬ s.IsDone := by
  intro h
  rw [(hs.done h).1] at hwr
  cases hwr

theorem isDone_iff {progress : CollectionProgress τ} (h : s.progress = some progress) :
    s.IsDone ↔ progress.status = .done := by
  rw [State.IsDone, h, map_some, some.injEq]

/-- **The process dies.** -/
theorem sound_die (hs : Sound setup root s) (rows' : Rows χ)
    (hsav : ∀ path mtime, Dict.get s.mtimes path = some mtime →
      Stored setup s.history rows' path mtime ∨ Overdue setup root s.files s.history path mtime)
    (hst : (∀ run, s.writer ≠ some (.applying run)) → s.interrupted = false →
      ∀ path mtime, Dict.get s.mtimes path = some mtime → Stored setup s.history rows' path mtime) :
    Sound setup root ({ s with rows := rows' } : State γ τ χ).die := by
  refine hs.move rfl rfl ?_ (fun h => ⟨rfl, ?_⟩) hsav (fun _ hwh => ?_) ?_
  · rintro i w ⟨⟩
  · obtain ⟨hn, hwh⟩ := hs.done h
    simp only [State.die, hn]
    exact hwh
  · simp only [State.die] at hwh
    split at hwh
    · cases hwh
    · rename_i hnot
      exact hst hnot hwh
  · rintro writer ⟨⟩

/-! ### A full ingest -/

section FullIngest

variable {run : IngestRun γ} {rest newPaths : List Path}

theorem beginIngest_frame (s : State γ τ χ) (activeModel : String) (resumePaths : List Path) :
    (s.beginIngest activeModel resumePaths).files = s.files ∧
      (s.beginIngest activeModel resumePaths).history = s.history ∧
      (s.beginIngest activeModel resumePaths).rows = s.rows ∧
      (s.beginIngest activeModel resumePaths).waiting = s.waiting ∧
      s.saves < (s.beginIngest activeModel resumePaths).saves := by
  unfold State.beginIngest
  split_ifs
  · exact ⟨rfl, rfl, rfl, rfl, Nat.lt_add_of_pos_right (by decide : 0 < 2)⟩
  · exact ⟨rfl, rfl, rfl, rfl, Nat.lt_succ_self _⟩

theorem sound_beginIngest (hs : Sound setup root s) {activeModel : String}
    {resumePaths : List Path} (hres : ∀ path ∈ resumePaths, s.UpToDate setup path) :
    Sound setup root (s.beginIngest activeModel resumePaths) := by
  obtain ⟨hfs, hhis, hrw, hwa, hlt⟩ := beginIngest_frame s activeModel resumePaths
  have hemp : ∀ path, Dict.get (s.beginIngest activeModel resumePaths).mtimes path = none :=
    fun _ => rfl
  refine hs.move hfs hhis (fun i w hw => ⟨hwa ▸ hw, hlt.le, fun heq => ?_⟩)
    (fun h => nomatch h) (fun path mtime hg => ?_) (absurd · (some_ne_none _)) ?_
  · exact absurd heq hlt.ne'
  · rw [hemp] at hg
    cases hg
  · rintro writer ⟨⟩
    refine ⟨hemp, rfl, fun path hm file hf => ?_, fun _ => rfl, ?_, ?_⟩
    · rw [append_nil] at hm
      rw [hfs] at hf
      rw [hrw]
      exact hres path hm file hf
    · rintro todo ⟨⟩
    · rintro path content - ⟨⟩

/-- What a full ingest knows when it comes to the next file. -/
theorem IngestSound.next (h : IngestSound setup s run) (htodo : run.todo = some (path :: rest))
    (hfs : s'.files = s.files) (hmts : ∀ path, Dict.get s'.mtimes path = none)
    (hwh : s'.interrupted = s.interrupted)
    (hrw : ∀ other, other ≠ path → chunksIn s'.rows other = chunksIn s.rows other)
    (hw : ∀ other ∈ newPaths, other ∈ run.newPaths ∨ other = path ∧ s'.UpToDate setup path) :
    IngestSound setup s'
      { run with newPaths := newPaths, todo := some rest, reading := none } := by
  obtain ⟨hnd, hapart⟩ := h.todo _ htodo
  obtain ⟨hhead, hnd⟩ := nodup_cons.mp hnd
  have hold : ∀ other ∈ run.resumePaths ++ run.newPaths, s'.UpToDate setup other := by
    intro other hm file hf
    have hne : other ≠ path := fun heq => hapart path mem_cons_self (heq ▸ hm)
    rw [hrw other hne]
    exact h.upToDate other hm file (hfs ▸ hf)
  refine ⟨hmts, hwh.trans h.uninterrupted, fun other hm => ?_, ?_, ?_, ?_⟩
  · rcases mem_append.mp hm with hm | hm
    · exact hold other (mem_append_left _ hm)
    · obtain hm | ⟨rfl, hnow⟩ := hw other hm
      · exact hold other (mem_append_right _ hm)
      · exact hnow
  · rintro ⟨⟩
  · rintro todo ⟨⟩
    refine ⟨hnd, fun other hoth hm => ?_⟩
    have hnot := hapart other (mem_cons_of_mem path hoth)
    rcases mem_append.mp hm with hm | hm
    · exact hnot (mem_append_left _ hm)
    · obtain hm | ⟨rfl, -⟩ := hw other hm
      · exact hnot (mem_append_right _ hm)
      · exact hhead hoth
  · rintro other content - ⟨⟩

/-- A full ingest comes to an end: the modification times that it samples are those of the
versions that it has stored. -/
theorem sound_settleIngest (hs : Sound setup root s) (hwr : s.writer = some (.ingesting run))
    {rows' : Rows χ}
    (hrw : ∀ path ∈ run.resumePaths ++ run.newPaths, chunksIn rows' path = chunksIn s.rows path)
    (complete : Bool) :
    Sound setup root
      (({ s with rows := rows' } : State γ τ χ).settleIngest setup run complete) := by
  have hsd : IngestSound setup s run := hs.writer _ hwr
  have hsto : ∀ path mtime,
      Dict.get (mtimesOf s.files (run.resumePaths ++ run.newPaths)) path = some mtime →
      Stored setup s.history rows' path mtime := by
    intro path mtime hg
    obtain ⟨hm, file, hf, hmt⟩ := get_mtimesOf hg
    exact ⟨file, hs.versions.present path file hf, hmt,
      (hrw path hm).trans (hsd.upToDate path hm file hf)⟩
  refine hs.move rfl rfl (fun i w hw => ⟨hw, Nat.le_succ _, fun heq => ?_⟩)
    (fun _ => ⟨rfl, hsd.uninterrupted⟩) (fun path mtime hg => Or.inl ?_)
    (fun _ _ path mtime hg => hsto path mtime hg) ?_
  · exact absurd heq (Nat.succ_ne_self _)
  · exact hsto path mtime hg
  · rintro writer ⟨⟩

/-- **The files are listed**, without those that were processed before. -/
theorem sound_listFiles (hs : Sound setup root s) (h : s.listFiles setup root = some s') :
    Sound setup root s' := by
  unfold State.listFiles at h
  dsimp only at h
  split at h
  · rename_i run hwr
    split_ifs at h with hguard
    cases h
    rw [not_or, Bool.not_eq_true, isSome_eq_false_iff, isNone_iff_eq_none] at hguard
    have hsd : IngestSound setup s run := hs.writer _ hwr
    have hnil := hsd.unlisted hguard.1
    refine hs.move rfl rfl (fun i w hw => ⟨hw, le_rfl, fun _ => some_ne_none _⟩)
      (fun hd => absurd hd (hs.not_isDone hwr)) hs.saved
      (absurd · (some_ne_none _)) ?_
    rintro writer ⟨⟩
    refine ⟨hsd.unrecorded, hsd.uninterrupted, hsd.upToDate, ?_, ?_, ?_⟩
    · rintro ⟨⟩
    · rintro todo ⟨⟩
      refine ⟨(nodup_sortedFiles _).filter _, fun path hm => ?_⟩
      rw [hnil, append_nil]
      simpa using (mem_filter.mp hm).2
    · rintro path content - ⟨⟩
  · cases h

/-- The state after the ingest of a file: the state of the collection is saved from time to
time, without modification times. -/
theorem sound_nextFile (hs : Sound setup root s) (hwr : s.writer = some (.ingesting run))
    (htodo : run.todo = some (path :: rest)) (hfs : s'.files = s.files)
    (hhis : s'.history = s.history) (hwa : s'.waiting = s.waiting)
    (hrw : ∀ other, other ≠ path → chunksIn s'.rows other = chunksIn s.rows other)
    (hwh : s'.interrupted = s.interrupted)
    (hprog : s'.progress = s.progress ∧ s'.saves = s.saves ∨
      ∃ processed, s'.progress = some { status := .inProgress, processedPaths := processed } ∧
        s'.saves = s.saves + 1)
    (hwr' : s'.writer = some (.ingesting
      { run with newPaths := newPaths, todo := some rest, reading := none }))
    (hnew : ∀ other ∈ newPaths, other ∈ run.newPaths ∨ other = path ∧ s'.UpToDate setup path) :
    Sound setup root s' := by
  have hsd : IngestSound setup s run := hs.writer _ hwr
  have hmts : ∀ path, Dict.get s'.mtimes path = none := by
    intro other
    rcases hprog with ⟨hprog, -⟩ | ⟨processed, hprog, -⟩
    · unfold State.mtimes
      rw [hprog]
      exact hsd.unrecorded other
    · unfold State.mtimes
      rw [hprog]
      rfl
  have hd : ¬ s'.IsDone := by
    unfold State.IsDone
    rcases hprog with ⟨hprog, -⟩ | ⟨processed, hprog, -⟩
    · rw [hprog]
      exact hs.not_isDone hwr
    · rw [hprog]
      exact fun h => nomatch some.inj h
  refine hs.move hfs hhis (fun i w hw => ⟨hwa ▸ hw, ?_, fun _ => ?_⟩)
    (fun h => absurd h hd) (fun other mtime hg => ?_) (fun hn => ?_) ?_
  · rcases hprog with ⟨-, hsvs⟩ | ⟨_, -, hsvs⟩
    · exact hsvs.ge
    · exact hsvs ▸ Nat.le_succ _
  · rw [hwr']
    exact some_ne_none _
  · rw [hmts] at hg
    cases hg
  · rw [hwr'] at hn
    cases hn
  · intro writer hw
    obtain rfl := some.inj (hwr'.symm.trans hw)
    exact hsd.next htodo hfs hmts hwh hrw hnew

/-- **The ingest of a file ends**, in a full ingest. -/
theorem sound_finishFile (hs : Sound setup root s) (hwr : s.writer = some (.ingesting run))
    (htodo : run.todo = some (path :: rest)) {outcome : Outcome}
    (hcar : s.MayFinish setup (.ingesting run) path outcome)
    (h : s.finishFile setup run path rest outcome = some s') : Sound setup root s' := by
  have hsd : IngestSound setup s run := hs.writer _ hwr
  have hoth (written : Option ℕ) (other : Path) (hne : other ≠ path) :
      chunksIn (writeChunks s.rows path (chunksRead setup path run.reading) written) other =
        chunksIn s.rows other := chunksIn_writeChunks_of_ne hne
  have huns {rows' : Rows χ} (other : Path) (mtime : τ)
      (hg : Dict.get s.mtimes other = some mtime) : Stored setup s.history rows' other mtime := by
    rw [hsd.unrecorded] at hg
    cases hg
  cases outcome with
  | returns =>
    simp only [State.finishFile] at h
    split_ifs at h with hrd
    cases h
    rw [isNone_iff_eq_none, ← Ne, ne_none_iff_exists'] at hrd
    obtain ⟨content, hrd⟩ := hrd
    replace hcar : chunksRead setup path run.reading = [] → chunksIn s.rows path = [] :=
      hcar
    -- what was read is what is in the file
    have hnow : ∀ file, Dict.get s.files path = some file →
        chunksIn (writeChunks s.rows path (chunksRead setup path run.reading)
          (some (chunksRead setup path run.reading).length)) path =
          fileChunks setup path file.content := by
      intro file hf
      have hcur : (Writer.ingesting run : Writer γ τ).current = some path := by
        simp [Writer.current, htodo]
      rw [hsd.reading path content hcur hrd file hf,
        chunksIn_writeChunks_length hcar, hrd, chunksRead_some]
    have hw : ∀ other ∈ run.newPaths ++ [path], other ∈ run.newPaths ∨ other = path := by
      intro other hm
      exact (mem_append.mp hm).imp_right mem_singleton.mp
    have hoth := hoth (some (chunksRead setup path run.reading).length)
    unfold State.fileComplete
    dsimp only
    split_ifs
    · exact sound_nextFile hs hwr htodo rfl rfl rfl hoth rfl
        (Or.inr ⟨_, rfl, rfl⟩) rfl fun other hm => (hw other hm).imp_right fun heq =>
          ⟨heq, hnow⟩
    · exact sound_nextFile hs hwr htodo rfl rfl rfl hoth rfl
        (Or.inl ⟨rfl, rfl⟩) rfl fun other hm => (hw other hm).imp_right fun heq =>
          ⟨heq, hnow⟩
  | fails written =>
    cases h
    exact sound_nextFile hs hwr htodo rfl rfl rfl (hoth written) rfl
      (Or.inl ⟨rfl, rfl⟩) rfl fun other hm => Or.inl hm
  | raises written =>
    cases h
    refine sound_settleIngest hs hwr (fun other hm => hoth written other ?_) false
    exact fun heq => (hsd.todo _ htodo).2 path mem_cons_self (heq ▸ hm)
  | dies written =>
    cases h
    exact sound_die hs _ (fun other mtime hg => Or.inl (huns other mtime hg))
      fun _ _ other mtime hg => huns other mtime hg

end FullIngest

/-! ### An update -/

section Update

variable {apply : ApplyRun γ τ} {task : Task} {todo : List Task}

/-- An update takes the lock, with the modification times that are recorded. -/
theorem sound_beginApply (hs : Sound setup root s) {activeModel : String} {changes : Changes}
    {fileMtimes : Dict Path τ} (hfr : s.writer = none)
    (hwa : WaitingSound setup root s (.checked changes fileMtimes s.saves)) :
    Sound setup root (s.beginApply setup activeModel changes fileMtimes) := by
  obtain ⟨-, hnd, h⟩ := hwa
  obtain ⟨hmts, hdel, hlis⟩ := h rfl hfr
  have hsav : ∀ path mtime, Dict.get fileMtimes path = some mtime →
      Stored setup s.history s.rows path mtime ∨
        Overdue setup root s.files s.history path mtime := by
    rw [hmts]
    exact hs.saved
  refine hs.move rfl rfl (fun i w hw => ⟨hw, Nat.le_succ _, fun _ => some_ne_none _⟩)
    (fun hd => nomatch (isDone_iff rfl).mp hd) hsav (absurd · (some_ne_none _)) ?_
  rintro writer ⟨⟩
  refine ⟨hnd, fun path mtime hg => ?_, hdel, fun path _ => rfl, ?_⟩
  · cases hwh : s.interrupted with
    | false =>
      rw [hmts] at hg
      exact Or.inl (hs.settled hfr hwh path mtime hg)
    | true =>
      obtain hm | hsto := hlis path mtime hg
      · exact (hsav path mtime hg).imp_right fun hover => ⟨hwh, hover, hm⟩
      · exact Or.inl hsto
  · rintro path content - ⟨⟩

variable {draft : Draft τ}

theorem ApplySound.next (h : ApplySound setup root s apply) (htodo : apply.todo = task :: todo)
    (hfs : s'.files = s.files) (hhis : s'.history = s.history)
    (hwh : s'.interrupted = s.interrupted)
    (hmts : s'.mtimes = s.mtimes ∨ s'.mtimes = draft.fileMtimes)
    (hrw : ∀ other, other ≠ task.path → chunksIn s'.rows other = chunksIn s.rows other)
    (hdraft : ∀ other, other ≠ task.path →
      Dict.get draft.fileMtimes other = Dict.get apply.draft.fileMtimes other)
    (hhead : ∀ mtime, Dict.get draft.fileMtimes task.path = some mtime →
      Stored setup s.history s'.rows task.path mtime) :
    ApplySound setup root s' { apply with todo := todo, draft := draft, reading := none } := by
  obtain ⟨hnd, happ, hdel, hsav, -⟩ := h
  rw [htodo, map_cons] at hnd happ hsav
  obtain ⟨hnot, hnd⟩ := nodup_cons.mp hnd
  have hne {other : Path} (hm : other ∈ todo.map Task.path) : other ≠ task.path :=
    fun heq => hnot (heq ▸ hm)
  refine ⟨hnd, fun other mtime hg => ?_, fun other mtime hm hg => ?_, fun other hm => ?_, ?_⟩
  · rw [hfs, hhis, hwh]
    by_cases hoth : other = task.path
    · subst hoth
      exact Or.inl (hhead mtime hg)
    · refine (happ other mtime (hdraft other hoth ▸ hg)).imp
        (fun hsto => hsto.congr (hrw other hoth)) ?_
      rintro ⟨hint, hover, hm⟩
      exact ⟨hint, hover, (mem_cons.mp hm).resolve_left hoth⟩
  · rw [hfs, hhis]
    have hoth := hne (List.mem_map_of_mem (f := Task.path) hm)
    exact hdel other mtime (htodo ▸ mem_cons_of_mem task hm) (hdraft other hoth ▸ hg)
  · obtain hmts | hmts := hmts
    · rw [hmts, hdraft other (hne hm)]
      exact hsav other (mem_cons_of_mem _ hm)
    · rw [hmts]
  · rintro path content - ⟨⟩

variable {rows' : Rows χ}

/-- **A path is done**, and the state may be saved. -/
theorem sound_nextTask (hs : Sound setup root s) (hwr : s.writer = some (.applying apply))
    (htodo : apply.todo = task :: todo)
    (hrw : ∀ other, other ≠ task.path → chunksIn rows' other = chunksIn s.rows other)
    (hdraft : ∀ other, other ≠ task.path →
      Dict.get draft.fileMtimes other = Dict.get apply.draft.fileMtimes other)
    (hhead : ∀ mtime, Dict.get draft.fileMtimes task.path = some mtime →
      Stored setup s.history rows' task.path mtime)
    (hsav : ∀ mtime, Dict.get s.mtimes task.path = some mtime →
      Stored setup s.history rows' task.path mtime ∨
        Overdue setup root s.files s.history task.path mtime) :
    Sound setup root
      (({ s with rows := rows' } : State γ τ χ).nextTask setup apply todo draft) := by
  have hsd : ApplySound setup root s apply := hs.writer _ hwr
  have hk : ∀ other mtime, Dict.get draft.fileMtimes other = some mtime →
      Stored setup s.history rows' other mtime ∨
        Overdue setup root s.files s.history other mtime := by
    intro other mtime hg
    by_cases hoth : other = task.path
    · subst hoth
      exact Or.inl (hhead mtime hg)
    · exact (hsd.draft other mtime (hdraft other hoth ▸ hg)).imp
        (fun hsto => hsto.congr (hrw other hoth)) fun h => h.2.1
  unfold State.nextTask
  dsimp only
  split_ifs
  · refine hs.move rfl rfl (fun i w hw => ⟨hw, Nat.le_succ _, fun _ => some_ne_none _⟩)
      (fun hd => nomatch (isDone_iff rfl).mp hd) hk (absurd · (some_ne_none _)) ?_
    rintro writer ⟨⟩
    exact hsd.next htodo rfl rfl rfl (Or.inr rfl) hrw hdraft hhead
  · refine hs.move rfl rfl (fun i w hw => ⟨hw, le_rfl, fun _ => some_ne_none _⟩)
      (fun hd => absurd hd (hs.not_isDone hwr)) (fun other mtime hg => ?_)
      (absurd · (some_ne_none _)) ?_
    · by_cases hoth : other = task.path
      · subst hoth
        exact hsav mtime hg
      · exact (hs.saved other mtime hg).imp_left fun hsto =>
          hsto.congr (hrw other hoth)
    · rintro writer ⟨⟩
      exact hsd.next htodo rfl rfl rfl (Or.inl rfl) hrw hdraft hhead

theorem sound_settleApply (hs : Sound setup root s) (rows' : Rows χ) (interrupted complete : Bool)
    (hdraft : ∀ path mtime, Dict.get apply.draft.fileMtimes path = some mtime →
      Stored setup s.history rows' path mtime ∨ complete = false ∧ interrupted = true ∧
        Overdue setup root s.files s.history path mtime) :
    Sound setup root (({ s with rows := rows', interrupted := interrupted } :
      State γ τ χ).settleApply setup apply complete) := by
  refine hs.move rfl rfl (fun i w hw => ⟨hw, Nat.le_succ _, fun heq => ?_⟩)
    (fun hd => ⟨rfl, ?_⟩) (fun path mtime hg => ?_) (fun _ hwh path mtime hg => ?_) ?_
  · exact absurd heq (Nat.succ_ne_self _)
  · have hstat := (isDone_iff rfl).mp hd
    simp only [Draft.progress] at hstat
    split_ifs at hstat with hcom
    · simp [State.settleApply, hcom]
  · exact (hdraft path mtime hg).imp_right fun h => h.2.2
  · refine (hdraft path mtime hg).resolve_right ?_
    rintro ⟨hcom, hint, -⟩
    simp [State.settleApply, hcom, hint] at hwh
  · rintro writer ⟨⟩

/-- An exception in an update: what was written of the document that it was at is listed by the
next comparison. -/
theorem sound_abort (hs : Sound setup root s) (hwr : s.writer = some (.applying apply))
    {written : Bool}
    (hrw : ∀ other, other ≠ path → chunksIn rows' other = chunksIn s.rows other)
    (hhead : ∀ mtime, Dict.get apply.draft.fileMtimes path = some mtime →
      chunksIn rows' path = chunksIn s.rows path ∨
        written = true ∧ Overdue setup root s.files s.history path mtime) :
    Sound setup root (({ s with rows := rows' } : State γ τ χ).abort setup apply written) := by
  have hsd : ApplySound setup root s apply := hs.writer _ hwr
  refine sound_settleApply hs rows' (s.interrupted || written) false fun other mtime hg => ?_
  have hk (hchs : chunksIn rows' other = chunksIn s.rows other) :
      Stored setup s.history rows' other mtime ∨ false = false ∧
        (s.interrupted || written) = true ∧ Overdue setup root s.files s.history other mtime := by
    refine (hsd.draft other mtime hg).imp (fun hsto => hsto.congr hchs) ?_
    rintro ⟨hint, hover, -⟩
    exact ⟨rfl, by rw [hint, Bool.true_or], hover⟩
  by_cases hoth : other = path
  · subst hoth
    obtain hchs | ⟨hwrt, hover⟩ := hhead mtime hg
    · exact hk hchs
    · exact Or.inr ⟨rfl, by rw [hwrt, Bool.or_true], hover⟩
  · exact hk (hrw other hoth)

theorem sound_die_applying (hs : Sound setup root s)
    (hwr : s.writer = some (.applying apply))
    (hrw : ∀ other, other ≠ path → chunksIn rows' other = chunksIn s.rows other)
    (hhead : ∀ mtime, Dict.get s.mtimes path = some mtime →
      chunksIn rows' path = chunksIn s.rows path ∨
        Overdue setup root s.files s.history path mtime) :
    Sound setup root ({ s with rows := rows' } : State γ τ χ).die := by
  refine sound_die hs rows' (fun other mtime hg => ?_) fun hnot => absurd hwr (hnot apply)
  have hk (hchs : chunksIn rows' other = chunksIn s.rows other) :
      Stored setup s.history rows' other mtime ∨ Overdue setup root s.files s.history other mtime :=
    (hs.saved other mtime hg).imp_left fun hsto => hsto.congr hchs
  by_cases hoth : other = path
  · subst hoth
    obtain hchs | hover := hhead mtime hg
    · exact hk hchs
    · exact Or.inr hover
  · exact hk (hrw other hoth)

/-- **A deletion ends.** -/
theorem sound_finishDelete (hs : Sound setup root s) (hwr : s.writer = some (.applying apply))
    (htodo : apply.todo = .delete path :: todo) (outcome : Outcome) :
    Sound setup root (s.finishDelete setup apply path todo outcome) := by
  have hsd : ApplySound setup root s apply := hs.writer _ hwr
  have hrw : ∀ other, other ≠ path →
      chunksIn (deleteRows s.rows path) other = chunksIn s.rows other :=
    fun other hne => chunksIn_deleteRows_of_ne hne
  have hk : ∀ other, other ≠ path → chunksIn s.rows other = chunksIn s.rows other :=
    fun _ _ => rfl
  have hdraft : ∀ mtime, Dict.get apply.draft.fileMtimes path = some mtime →
      Overdue setup root s.files s.history path mtime :=
    fun mtime => hsd.deleted path mtime (htodo ▸ mem_cons_self)
  have hsav : ∀ mtime, Dict.get s.mtimes path = some mtime →
      Overdue setup root s.files s.history path mtime := by
    rw [hsd.saved path (by rw [htodo]; exact mem_cons_self)]
    exact hdraft
  have hret : Sound setup root
      (({ s with rows := deleteRows s.rows path } : State γ τ χ).nextTask setup apply todo
        { apply.draft with
          fileMtimes := apply.draft.fileMtimes.erase path
          processedPaths := apply.draft.processedPaths.erase path }) := by
    refine sound_nextTask hs hwr htodo hrw (fun other hne => ?_) (fun mtime hg => ?_)
      fun mtime hg => Or.inr (hsav mtime hg)
    · rw [Dict.get_erase]
      exact if_neg hne
    · rw [Task.path, Dict.get_erase, if_pos rfl] at hg
      cases hg
  cases outcome with
  | returns => exact hret
  | fails _ => exact hret
  | raises written =>
    cases written with
    | none => exact sound_abort hs hwr hk fun mtime _ => Or.inl rfl
    | some _ =>
      exact sound_abort hs hwr hrw fun mtime hg => Or.inr ⟨rfl, hdraft mtime hg⟩
  | dies written =>
    cases written with
    | none => exact sound_die_applying hs hwr hk fun mtime _ => Or.inl rfl
    | some _ =>
      exact sound_die_applying hs hwr hrw fun mtime hg => Or.inr (hsav mtime hg)

/-- What is recorded of a file that is ingested again may be its present modification time. -/
theorem overdue_of_ne (hs : Sound setup root s)
    (hg : Dict.get s.mtimes path = some mtime)
    (hne : (Dict.get s.files path).map File.mtime ≠ some mtime) :
    Overdue setup root s.files s.history path mtime :=
  ⟨exists_version (hs.saved path mtime hg), fun h => hne h.2⟩

/-- **The ingest of a changed or of a new file ends.** -/
theorem sound_finishUpdate (hs : Sound setup root s) (hwr : s.writer = some (.applying apply))
    {changed : Bool} (htodo : apply.todo = .ingest changed path :: todo) {outcome : Outcome}
    (hcar : s.MayFinish setup (.applying apply) path outcome)
    (h : s.finishUpdate setup apply changed path todo outcome = some s') :
    Sound setup root s' := by
  have hsd : ApplySound setup root s apply := hs.writer _ hwr
  have hrw (written : Option ℕ) (other : Path) (hne : other ≠ path) :
      chunksIn (writeChunks s.rows path (chunksRead setup path apply.reading) written) other =
        chunksIn s.rows other := chunksIn_writeChunks_of_ne hne
  have hsa : Dict.get s.mtimes path = Dict.get apply.draft.fileMtimes path :=
    hsd.saved path (by rw [htodo]; exact mem_cons_self)
  have hbrok {written : Option ℕ} (hm : ∀ mtime ∈ (Writer.applying apply).recorded path,
      (Dict.get s.files path).map File.mtime = some mtime →
        Untouched (chunksRead setup path apply.reading) written) (mtime : τ)
      (hg : Dict.get apply.draft.fileMtimes path = some mtime) :
      Untouched (chunksRead setup path apply.reading) written ∨
        Overdue setup root s.files s.history path mtime := by
    by_cases hpres : (Dict.get s.files path).map File.mtime = some mtime
    · exact Or.inl (hm mtime hg hpres)
    · exact Or.inr (overdue_of_ne hs (hsa.trans hg) hpres)
  cases outcome with
  | returns =>
    simp only [State.finishUpdate] at h
    split_ifs at h with hrd
    cases h
    rw [isNone_iff_eq_none, ← Ne, ne_none_iff_exists'] at hrd
    obtain ⟨content, hrd⟩ := hrd
    obtain ⟨file, hf, rfl⟩ := hsd.reading path content (by simp [Writer.current, htodo]) hrd
    replace hcar : chunksRead setup path apply.reading = [] → chunksIn s.rows path = [] :=
      hcar
    -- the version that was read is the present one
    have hsto : Stored setup s.history (writeChunks s.rows path
        (chunksRead setup path apply.reading)
        (some (chunksRead setup path apply.reading).length)) path file.mtime := by
      refine ⟨file, hs.versions.present path file hf, rfl, ?_⟩
      rw [chunksIn_writeChunks_length hcar, hrd, chunksRead_some]
    refine sound_nextTask hs hwr htodo (hrw _) (fun other hne => ?_)
      (fun mtime hg => ?_) fun mtime hg => ?_
    · simp only [Draft.ingested, hf]
      exact Dict.get_insert_of_ne _ hne _
    · simp only [Draft.ingested, hf, Task.path, Dict.get_insert_self, some.injEq] at hg
      exact hg ▸ hsto
    · by_cases hpres : file.mtime = mtime
      · exact Or.inl (hpres ▸ hsto)
      · refine Or.inr (overdue_of_ne hs hg ?_)
        rw [Task.path, hf]
        exact fun heq => hpres (some.inj heq)
  | fails written =>
    cases h
    replace hcar : (Dict.get apply.draft.fileMtimes path).isSome = true →
      s.interrupted = false ∧ Untouched (chunksRead setup path apply.reading) written := hcar
    -- a modification time that is kept is that of the rows that are kept
    have hk : ∀ mtime, Dict.get apply.draft.fileMtimes path = some mtime →
        Stored setup s.history (writeChunks s.rows path (chunksRead setup path apply.reading)
          written) path mtime := by
      intro mtime hg
      obtain ⟨hwh, hunt⟩ := hcar (by rw [hg]; rfl)
      rw [writeChunks_of_untouched hunt]
      refine (hsd.draft path mtime hg).resolve_right fun h => ?_
      rw [hwh] at h
      cases h.1
    exact sound_nextTask hs hwr htodo (hrw written) (fun other _ => rfl) hk
      fun mtime hg => Or.inl (hk mtime (hsa.symm.trans hg))
  | raises written =>
    cases h
    refine sound_abort hs hwr (hrw written) fun mtime hg => ?_
    cases written with
    | none => exact Or.inl rfl
    | some n =>
      obtain hunt | hover := hbrok hcar mtime hg
      · exact Or.inl (by rw [writeChunks_of_untouched hunt])
      · exact Or.inr ⟨rfl, hover⟩
  | dies written =>
    cases h
    refine sound_die_applying hs hwr (hrw written) fun mtime hg => ?_
    refine (hbrok hcar mtime (hsa.symm.trans hg)).imp_left fun hunt => ?_
    rw [writeChunks_of_untouched hunt]

end Update

/-! ### Runs -/

/-- **The content of a file is read.** -/
theorem sound_readFile (hs : Sound setup root s) (h : s.readFile setup = some s') :
    Sound setup root s' := by
  simp only [State.readFile, bind_eq_bind, bind_eq_some_iff] at h
  obtain ⟨writer, hwr, path, hcur, file, hf, h⟩ := h
  split_ifs at h
  cases h
  have hsd := hs.writer writer hwr
  refine hs.move rfl rfl (fun i w hw => ⟨hw, le_rfl, fun _ => some_ne_none _⟩)
    (fun hd => absurd hd (hs.not_isDone hwr)) hs.saved
    (absurd · (some_ne_none _)) ?_
  rintro writer' ⟨⟩
  cases writer with
  | ingesting run =>
    refine { hsd with reading := ?_ }
    rintro other content hoth ⟨⟩ file' hf'
    obtain rfl : path = other := some.inj (hcur.symm.trans hoth)
    rw [some.inj (hf.symm.trans hf')]
  | applying run =>
    refine { hsd with reading := ?_ }
    rintro other content hoth ⟨⟩
    obtain rfl : path = other := some.inj (hcur.symm.trans hoth)
    exact ⟨file, hf, rfl⟩

/-- The ingest of a file, or the deletion of a document, ends. -/
theorem sound_finish (hs : Sound setup root s) {outcome : Outcome}
    (hcar : ∀ writer ∈ s.writer, ∀ path ∈ writer.current, s.MayFinish setup writer path outcome)
    (h : s.finish setup outcome = some s') : Sound setup root s' := by
  unfold State.finish at h
  split at h
  · rename_i run hwr
    split at h
    · rename_i path rest htodo
      exact sound_finishFile hs hwr htodo (hcar _ hwr path (by simp [Writer.current, htodo])) h
    · cases h
  · rename_i run hwr
    split at h
    · rename_i path rest htodo
      cases h
      exact sound_finishDelete hs hwr htodo outcome
    · rename_i changed path rest htodo
      exact sound_finishUpdate hs hwr htodo (hcar _ hwr path (by simp [Writer.current, htodo])) h
    · cases h
  · cases h

theorem sound_settle (hs : Sound setup root s) {complete : Bool}
    (h : s.settle setup complete = some s') : Sound setup root s' := by
  unfold State.settle at h
  split at h
  · rename_i run hwr
    split_ifs at h
    cases h
    exact sound_settleIngest hs hwr (fun _ _ => rfl) complete
  · rename_i run hwr
    split_ifs at h with hguard
    cases h
    have hsd : ApplySound setup root s run := hs.writer _ hwr
    refine sound_settleApply hs s.rows s.interrupted complete fun path mtime hg => ?_
    refine (hsd.draft path mtime hg).imp_right ?_
    rintro ⟨hint, hover, hm⟩
    refine ⟨?_, hint, hover⟩
    -- where everything is done there is nothing left to do
    by_contra hcom
    rw [Bool.not_eq_false] at hcom
    refine hguard (Or.inr ⟨hcom, ?_⟩)
    rw [isEmpty_eq_false_iff]
    rintro hnil
    rw [hnil] at hm
    cases hm
  · cases h

theorem sound_begin (hs : Sound setup root s) {i : ℕ}
    (hcar : ∀ waiting ∈ s.waiting i, s.MayBegin setup waiting)
    (h : s.begin setup i activeModel = some s') : Sound setup root s' := by
  have hs' : Sound setup root { s with waiting := update s.waiting i none } :=
    hs.setWaiting i none fun w hw => nomatch hw
  unfold State.begin at h
  split at h
  · rename_i resumePaths hfr hwa
    cases h
    exact sound_beginIngest hs' (hcar _ hwa)
  · rename_i changes fileMtimes saves hfr hwa
    cases h
    obtain rfl : saves = s.saves := hcar _ hwa
    exact sound_beginApply hs' hfr (hs.waiting i _ hwa)
  · cases h

/-- **A careful step** preserves what the code relies on. -/
theorem sound_step [DecidableEq τ] {e : Event γ τ} (hcar : Careful setup s e)
    (hs : Sound setup root s) (h : step setup root s e = some s') : Sound setup root s' := by
  cases e with
  | edit path file => exact sound_edit hs hcar h
  | remove path =>
    cases h
    exact sound_remove hs hcar
  | reset =>
    cases h
    exact sound_reset hs
  | load i =>
    cases h
    refine hs.setWaiting i _ fun w hw => ?_
    cases hw
    trivial
  | readState i =>
    cases h
    refine hs.setWaiting i _ fun w hw => ?_
    cases hw
    exact ⟨le_rfl, fun _ _ => rfl⟩
  | check i activeModel => exact sound_check hs h
  | «begin» i activeModel => exact sound_begin hs hcar h
  | list => exact sound_listFiles hs h
  | read => exact sound_readFile hs h
  | finish outcome => exact sound_finish hs hcar h
  | settle complete => exact sound_settle hs h
  | die =>
    cases h
    refine sound_die hs s.rows hs.saved fun hnot hwh path mtime hg => ?_
    cases hwr : s.writer with
    | none => exact hs.settled hwr hwh path mtime hg
    | some writer =>
      cases writer with
      | ingesting run =>
        have hsd : IngestSound setup s run := hs.writer _ hwr
        rw [hsd.unrecorded] at hg
        cases hg
      | applying run => exact absurd hwr (hnot run)

theorem sound_init : Sound setup root (State.init : State γ τ χ) where
  versions := ⟨fun _ _ hf => (nomatch hf), fun _ _ _ hm => (nomatch hm)⟩
  done hd := nomatch hd
  waiting _ _ hw := nomatch hw
  saved _ _ hg := nomatch hg
  settled _ _ _ _ hg := nomatch hg
  writer _ hwr := nomatch hwr

/-- What is recorded is stored where it is `DONE`, and what is not listed is as it is
recorded. -/
theorem Sound.noEditLost [DecidableEq τ] (hs : Sound setup root s) :
    s.NoEditLost setup root where
  recorded hd path mtime hg :=
    hs.settled (hs.done hd).1 (hs.done hd).2 path mtime hg
  noticed hd activeModel path helig hm := by
    obtain ⟨file, hf, -⟩ := mem_iterEligibleFiles.mp helig
    -- a file that has no recorded modification time is listed
    have hrecd : Dict.get s.mtimes path = some file.mtime := by
      rw [map_path_tasksOf, append_assoc, mem_append, not_or] at hm
      refine (isCurrent_eq_true_iff hf).mp ?_
      by_contra hnot
      exact hm.2 (mem_changed_append_new.mpr ⟨helig, Or.inr (Bool.not_eq_true _ ▸ hnot)⟩)
    obtain ⟨version, hver, hmt, hchs⟩ :=
      hs.settled (hs.done hd).1 (hs.done hd).2 path _ hrecd
    have heq : version = file := hs.versions.distinct path version file hver
      (hs.versions.present path file hf) hmt
    rw [hchs, heq, chunksOf, hf]
    rfl

/-- **No edit is lost where every step is careful**: whatever files are created, edited and
removed while syncs run, wait, fail and die. -/
theorem noEditLost_of_careful [DecidableEq τ] {es : List (Event γ τ)}
    (hcareful : Along (step setup root) (Careful setup) State.init es)
    (hrun : run (step setup root) State.init es = some s) : s.NoEditLost setup root :=
  (run_invariant_along (fun _ _ _ => fun hcareful hs h => sound_step hcareful hs h) hcareful
    sound_init hrun).noEditLost

def sampleSetup : Setup ℕ ℕ where
  chunks _ content := if content = 0 then [] else [content]
  denied _ _ := false
  lower name := name
  sha1 _ := "0123ab"
  pinnedCollections := []
  maxDiscoveredFiles := 10
  chunkSize := 512
  autoReindexOnChunkSizeChange := false

def sampleRoot : Path := ["docs"]

def sampleFile : Path := ["docs", "a"]

def hasty : List (Event ℕ ℕ) :=
  [.edit sampleFile ⟨1, 1⟩, .load 0, .begin 0 "", .list, .read, .edit sampleFile ⟨2, 2⟩,
    .finish .returns, .settle true]

/-- The file is edited when it was ingested, and the next sync is broken off. The one after it is
overtaken by an edit before it reads the file. -/
def patient : List (Event ℕ ℕ) :=
  [.edit sampleFile ⟨1, 1⟩, .load 0, .begin 0 "", .list, .edit ["docs", "b"] ⟨7, 2⟩, .read,
    .finish .returns, .settle true, .edit sampleFile ⟨2, 3⟩, .readState 1, .check 1 "",
    .begin 1 "", .read, .finish .returns, .edit sampleFile ⟨3, 4⟩, .die, .readState 2,
    .check 2 "", .begin 2 "", .edit sampleFile ⟨4, 5⟩, .read, .finish .returns, .read,
    .finish .returns, .settle true]

instance (writer : Writer γ τ) (path : Path) : Decidable (writer.IsReading path) :=
  inferInstanceAs (Decidable (_ ∧ _))

instance Writer.decidableAwaits (path : Path) (writer : Writer γ τ) :
    Decidable (writer.Awaits path) := by
  cases writer <;> exact inferInstanceAs (Decidable (_ ∨ _))

instance Writer.decidableMayRemove (path : Path) :
    (writer : Writer γ τ) → Decidable (writer.MayRemove path)
  | ingesting _ => .isTrue trivial
  | applying _ => inferInstanceAs (Decidable (¬ _))

instance (chunks : List χ) (written : Option ℕ) : Decidable (Untouched chunks written) :=
  inferInstanceAs (Decidable (_ ∨ _))

instance [DecidableEq χ] (path : Path) : Decidable (s.UpToDate setup path) :=
  inferInstanceAs (Decidable (∀ file ∈ Dict.get s.files path, _))

instance State.decidableMayBegin [DecidableEq χ] (waiting : Waiting τ) :
    Decidable (s.MayBegin setup waiting) := by
  unfold State.MayBegin
  split <;> infer_instance

instance State.decidableMayFinish [DecidableEq τ] (writer : Writer γ τ) (path : Path)
    (outcome : Outcome) : Decidable (s.MayFinish setup writer path outcome) := by
  unfold State.MayFinish
  split <;> infer_instance

instance Careful.decidable [DecidableEq τ] [DecidableEq χ] (s : State γ τ χ) (e : Event γ τ) :
    Decidable (Careful setup s e) := by
  unfold Careful
  split <;> infer_instance

instance (s : State γ τ χ) : Decidable s.IsDone :=
  inferInstanceAs (Decidable ((s.progress.map CollectionProgress.status) = some .done))

/-- The edits of a patient run are noticed, the last one as well. -/
theorem noEditLost_of_careful_patient :
    Along (step sampleSetup sampleRoot) (Careful sampleSetup) State.init patient ∧
      ∃ s, run (step sampleSetup sampleRoot) State.init patient = some s ∧ s.IsDone ∧
        chunksIn s.rows sampleFile = [4] ∧ s.NoEditLost sampleSetup sampleRoot := by
  have hcar : Along (step sampleSetup sampleRoot) (Careful sampleSetup) State.init patient := by
    decide +kernel
  obtain ⟨s, hs, hd, hchs⟩ : ∃ s ∈ run (step sampleSetup sampleRoot) State.init patient,
      s.IsDone ∧ chunksIn s.rows sampleFile = [4] := by
    decide +kernel
  exact ⟨hcar, s, hs, hd, hchs, noEditLost_of_careful hcar hs⟩

def State.isStale (s : State ℕ ℕ ℕ) : Bool :=
  decide (s.IsDone ∧ Dict.get s.mtimes sampleFile = some 2 ∧ ∀ version ∈ s.history,
    version.2.mtime = 2 → chunksIn s.rows sampleFile ≠ fileChunks sampleSetup sampleFile
      version.2.content)

/-- **An edit is lost**: it came after the file was read and before its modification time was
sampled. -/
theorem edit_lost :
    ¬ ∀ (es : List (Event ℕ ℕ)) (s : State ℕ ℕ ℕ),
      run (step sampleSetup sampleRoot) State.init es = some s →
      s.NoEditLost sampleSetup sampleRoot := by
  intro h
  obtain ⟨s, hs, hstale⟩ : ∃ s ∈ run (step sampleSetup sampleRoot) State.init hasty,
      s.isStale = true := by
    decide +kernel
  obtain ⟨hd, hg, hnot⟩ := of_decide_eq_true hstale
  obtain ⟨version, hm, hmt, hchs⟩ := (h hasty s hs).recorded hd sampleFile 2 hg
  exact hnot _ hm hmt hchs

end ArchonSearch.Sync.Edits
