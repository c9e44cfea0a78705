import ArchonSearch.Sync.Turn

/-!
# A sync among edits of the files

`ArchonSearch.Sync.sync` is run to its end on files that stay as they are. Here the files of a
collection are created, edited and removed between any two steps of the syncs that write it, and the
indexing state of the collection is followed through: a full ingest (`_ingest_collection`) reads the
files one by one and samples all modification times when it is through, an update
(`_apply_collection_changes`) samples each modification time when the ingest of the file has
returned.

What a sync does is decided before it has the lock of the collection. A full ingest loads the
processed paths; an update reads the indexing state, compares it with the files, and then waits. Any
number of them may wait, since the watcher's `sync_collection` runs beside `sync`. Which of the two
comes is decided earlier still, so that here either may come at any time.

The history keeps every version of every file. An edit gives a file a modification time that it has
not had before.
-/

namespace ArchonSearch.Sync.Edits

open Lib Function

variable {γ τ χ : Type}

/-! ### The state -/

/-- A sync that does not have the lock of the collection yet. `saves` counts the writes of the
indexing state before the one that was read. -/
inductive Waiting (τ : Type) where
  /-- `_ingest_collection` has loaded the processed paths. -/
  | loaded : (resumePaths : List Path) → Waiting τ
  | read : (progress : Option (CollectionProgress τ)) → (saves : ℕ) → Waiting τ
  /-- `_check_collection_changes` has returned. -/
  | checked : Changes → (fileMtimes : Dict Path τ) → (saves : ℕ) → Waiting τ

/-- What `_apply_collection_changes` has to do with a path. -/
inductive Task where
  | delete : Path → Task
  | ingest : (changed : Bool) → Path → Task

def Task.path : Task → Path
  | delete path | ingest _ path => path

/-- The three loops of `_apply_collection_changes`. -/
def tasksOf (changes : Changes) : List Task :=
  changes.deletedPaths.map Task.delete ++ changes.changedFiles.map (Task.ingest true) ++
    changes.newFiles.map (Task.ingest false)

structure IngestRun (γ : Type) where
  activeModel : String
  resumePaths : List Path
  newPaths : List Path := []
  todo : Option (List Path) := none
  reading : Option γ := none

structure ApplyRun (γ τ : Type) where
  activeModel : String
  todo : List Task
  draft : Draft τ
  reading : Option γ := none

inductive Writer (γ τ : Type) where
  /-- `_ingest_collection`. -/
  | ingesting : IngestRun γ → Writer γ τ
  /-- `_apply_collection_changes`. -/
  | applying : ApplyRun γ τ → Writer γ τ

structure State (γ τ χ : Type) where
  files : Dict Path (File γ τ)
  history : List (Path × File γ τ)
  rows : Rows χ
  progress : Option (CollectionProgress τ)
  saves : ℕ
  waiting : ℕ → Option (Waiting τ)
  writer : Option (Writer γ τ)
  /-- An update was broken off with a file written and its modification time not recorded, and
  none has come to its end since. -/
  interrupted : Bool

def State.init : State γ τ χ where
  files := Keyed.empty
  history := []
  rows := []
  progress := none
  saves := 0
  waiting := fun _ => none
  writer := none
  interrupted := false

/-! ### Files and rows -/

variable (setup : Setup γ χ)

def fileChunks (path : Path) (content : γ) : List χ :=
  if isSidecar path then [] else setup.chunks path content

def Writer.current : Writer γ τ → Option Path
  | ingesting run => run.todo.bind List.head?
  | applying run =>
    match run.todo with
    | .ingest _ path :: _ => some path
    | _ => none

def Writer.reading : Writer γ τ → Option γ
  | ingesting run => run.reading
  | applying run => run.reading

def Writer.setReading (content : γ) : Writer γ τ → Writer γ τ
  | ingesting run => ingesting { run with reading := some content }
  | applying run => applying { run with reading := some content }

def chunksRead (path : Path) (reading : Option γ) : List χ :=
  (reading.map (fileChunks setup path)).getD []

def writeChunks (rows : Rows χ) (path : Path) (chunks : List χ) : (written : Option ℕ) → Rows χ
  | none => rows
  | some n =>
    if chunks = [] then rows
    else deleteRows rows path ++ (chunks.take n).map fun chunk => (path, chunk)

/-! ### The indexing state -/

/-- `_safe_state_update`. -/
def State.save (s : State γ τ χ) (progress : CollectionProgress τ) : State γ τ χ :=
  { s with progress := some progress, saves := s.saves + 1 }

def State.processedPaths (s : State γ τ χ) : List Path :=
  ((s.progress.map CollectionProgress.processedPaths).getD [])

def State.die (s : State γ τ χ) : State γ τ χ :=
  { s with
    waiting := fun _ => none
    writer := none
    interrupted :=
      match s.writer with
      | some (.applying _) => true
      | _ => s.interrupted }

/-! ### A full ingest -/

/-- `_ingest_collection` takes the lock. -/
def State.beginIngest (s : State γ τ χ) (activeModel : String) (resumePaths : List Path) :
    State γ τ χ :=
  let s := if resumePaths = [] then s.save { status := .pending } else s
  let s := s.save { status := .inProgress, processedPaths := resumePaths }
  { s with writer := some (.ingesting ⟨activeModel, resumePaths, [], none, none⟩)
           interrupted := false }

/-- The end of `_ingest_collection`: the modification times are sampled. -/
def State.settleIngest (s : State γ τ χ) (run : IngestRun γ) (complete : Bool) : State γ τ χ :=
  let progress : CollectionProgress τ :=
    { status := if complete then .done else .failed
      processedPaths := run.resumePaths ++ run.newPaths
      fileMtimes := mtimesOf s.files (run.resumePaths ++ run.newPaths)
      indexedEmbeddingModel := run.activeModel
      indexedChunkSize := recordedChunkSize setup }
  { s.save progress with writer := none }

/-- `ingest_directory` goes on with the rest of the files. -/
def State.nextFile (s : State γ τ χ) (run : IngestRun γ) (rest : List Path) : State γ τ χ :=
  { s with writer := some (.ingesting { run with todo := some rest, reading := none }) }

/-- `on_file_complete`. -/
def State.fileComplete (s : State γ τ χ) (run : IngestRun γ) (path : Path) (rest : List Path) :
    State γ τ χ :=
  let run := { run with newPaths := run.newPaths ++ [path] }
  let s := s.nextFile run rest
  if run.newPaths.length % checkpointInterval = 0 then
    s.save { status := .inProgress, processedPaths := run.resumePaths ++ run.newPaths }
  else s

/-- The ingest of a file ends. It returns `ok` only if the file was read. -/
def State.finishFile (s : State γ τ χ) (run : IngestRun γ) (path : Path) (rest : List Path)
    (outcome : Outcome) : Option (State γ τ χ) :=
  let chunks := chunksRead setup path run.reading
  let written (w : Option ℕ) : State γ τ χ := { s with rows := writeChunks s.rows path chunks w }
  match outcome with
  | .returns =>
    if run.reading.isNone then none
    else some ((written (some chunks.length)).fileComplete run path rest)
  | .fails w => some ((written w).nextFile run rest)
  | .raises w => some ((written w).settleIngest setup run false)
  | .dies w => some (written w).die

/-! ### An update -/

/-- `_apply_collection_changes` takes the lock. -/
def State.beginApply (s : State γ τ χ) (activeModel : String) (changes : Changes)
    (fileMtimes : Dict Path τ) : State γ τ χ :=
  let draft : Draft τ := ⟨fileMtimes, s.processedPaths, 0⟩
  let s := s.save (draft.progress setup activeModel .inProgress)
  { s with writer := some (.applying ⟨activeModel, tasksOf changes, draft, none⟩) }

/-- The end of `_apply_collection_changes`. -/
def State.settleApply (s : State γ τ χ) (run : ApplyRun γ τ) (complete : Bool) : State γ τ χ :=
  let progress := run.draft.progress setup run.activeModel (if complete then .done else .failed)
  { s.save progress with writer := none
                         interrupted := !complete && s.interrupted }

def State.nextTask (s : State γ τ χ) (run : ApplyRun γ τ) (rest : List Task) (draft : Draft τ) :
    State γ τ χ :=
  let draft := { draft with fileCount := draft.fileCount + 1 }
  let s := { s with writer := some (.applying { run with
    todo := rest, draft := draft, reading := none }) }
  if draft.fileCount % checkpointInterval = 0 then
    s.save (draft.progress setup run.activeModel .inProgress)
  else s

/-- An exception in an update; `written` says that the document was written before. -/
def State.abort (s : State γ τ χ) (run : ApplyRun γ τ) (written : Bool) : State γ τ χ :=
  ({ s with interrupted := s.interrupted || written }).settleApply setup run false

/-- `delete_by_source_path` ends. -/
def State.finishDelete (s : State γ τ χ) (run : ApplyRun γ τ) (path : Path) (rest : List Task)
    (outcome : Outcome) : State γ τ χ :=
  let deleted : State γ τ χ := { s with rows := deleteRows s.rows path }
  match outcome with
  | .returns | .fails _ => deleted.nextTask setup run rest
      { run.draft with
        fileMtimes := run.draft.fileMtimes.erase path
        processedPaths := run.draft.processedPaths.erase path }
  | .raises none => s.abort setup run false
  | .raises (some _) => deleted.abort setup run true
  | .dies none => s.die
  | .dies (some _) => deleted.die

/-- The ingest of a changed or of a new file ends. It returns `ok` only if the file was read. -/
def State.finishUpdate (s : State γ τ χ) (run : ApplyRun γ τ) (changed : Bool) (path : Path)
    (rest : List Task) (outcome : Outcome) : Option (State γ τ χ) :=
  let chunks := chunksRead setup path run.reading
  let written (w : Option ℕ) : State γ τ χ := { s with rows := writeChunks s.rows path chunks w }
  match outcome with
  | .returns =>
    if run.reading.isNone then none
    else some ((written (some chunks.length)).nextTask setup run rest
      (run.draft.ingested s.files path))
  | .fails w => some ((written w).nextTask setup run rest
      { run.draft with
        processedPaths :=
          if changed then run.draft.processedPaths.erase path else run.draft.processedPaths })
  | .raises w => some ((written w).abort setup run w.isSome)
  | .dies w => some (written w).die

/-! ### Steps -/

inductive Event (γ τ : Type) where
  | edit : Path → File γ τ → Event γ τ
  | remove : Path → Event γ τ
  /-- `_reset_stale_in_progress`. -/
  | reset
  /-- `_ingest_collection` loads the processed paths. -/
  | load : (i : ℕ) → Event γ τ
  /-- `sync` or `sync_collection` reads the indexing state. -/
  | readState : (i : ℕ) → Event γ τ
  /-- `_check_collection_changes`. -/
  | check : (i : ℕ) → (activeModel : String) → Event γ τ
  | begin : (i : ℕ) → (activeModel : String) → Event γ τ
  /-- `ingest_directory` lists the files. -/
  | list
  | read
  | finish : Outcome → Event γ τ
  | settle : (complete : Bool) → Event γ τ
  | die

variable (root : Path)

/-- `ingest_directory` lists the files, without those that are excluded. -/
def State.listFiles (s : State γ τ χ) : Option (State γ τ χ) :=
  let discovered := discoverIngestFiles setup s.files root
  match s.writer with
  | some (.ingesting run) =>
    if run.todo.isSome ∨ setup.maxDiscoveredFiles < discovered.length then none
    else some (s.nextFile run (discovered.filter fun path => !run.resumePaths.contains path))
  | _ => none

def State.readFile (s : State γ τ χ) : Option (State γ τ χ) := do
  let writer ← s.writer
  let path ← writer.current
  let file ← Dict.get s.files path
  if writer.reading.isSome ∨ setup.denied path file.content then none
  else some { s with writer := some (writer.setReading file.content) }

def State.finish (s : State γ τ χ) (outcome : Outcome) : Option (State γ τ χ) :=
  match s.writer with
  | some (.ingesting run) =>
    match run.todo with
    | some (path :: rest) => s.finishFile setup run path rest outcome
    | _ => none
  | some (.applying run) =>
    match run.todo with
    | .delete path :: rest => some (s.finishDelete setup run path rest outcome)
    | .ingest changed path :: rest => s.finishUpdate setup run changed path rest outcome
    | [] => none
  | none => none

/-- The writer comes to its end when everything is done, or raises between two files. -/
def State.settle (s : State γ τ χ) (complete : Bool) : Option (State γ τ χ) :=
  match s.writer with
  | some (.ingesting run) =>
    if run.reading.isSome ∨ complete = true ∧ run.todo ≠ some [] then none
    else some (s.settleIngest setup run complete)
  | some (.applying run) =>
    if run.reading.isSome ∨ complete = true ∧ run.todo.isEmpty = false then none
    else some (s.settleApply setup run complete)
  | none => none

def State.begin (s : State γ τ χ) (i : ℕ) (activeModel : String) : Option (State γ τ χ) :=
  let s' := { s with waiting := update s.waiting i none }
  match s.writer, s.waiting i with
  | none, some (.loaded resumePaths) => some (s'.beginIngest activeModel resumePaths)
  | none, some (.checked changes fileMtimes _) =>
    some (s'.beginApply setup activeModel changes fileMtimes)
  | _, _ => none

variable [DecidableEq τ]

/-- `_check_collection_changes`: where nothing has changed the sync is over. -/
def State.check (s : State γ τ χ) (i : ℕ) (activeModel : String) : Option (State γ τ χ) :=
  match s.waiting i with
  | some (.read progress saves) =>
    let changes := checkCollectionChanges setup s.files root progress activeModel
    let next := if changes = ⟨[], [], []⟩ then none
      else some (Waiting.checked changes (loadFileMtimes progress) saves)
    some { s with waiting := update s.waiting i next }
  | _ => none

def State.edit (s : State γ τ χ) (path : Path) (file : File γ τ) : Option (State γ τ χ) :=
  if s.history.any fun version => version.1 = path && version.2.mtime = file.mtime then none
  else some { s with
    files := s.files.insert (path, file), history := s.history ++ [(path, file)] }

def step (s : State γ τ χ) : Event γ τ → Option (State γ τ χ)
  | .edit path file => s.edit path file
  | .remove path => some { s with files := s.files.erase path }
  | .reset => some { s with progress := s.progress.map resetInProgress }
  | .load i => some { s with
      waiting := update s.waiting i (some (.loaded s.processedPaths)) }
  | .readState i => some { s with
      waiting := update s.waiting i (some (.read s.progress s.saves)) }
  | .check i activeModel => s.check setup root i activeModel
  | .begin i activeModel => s.begin setup i activeModel
  | .list => s.listFiles setup root
  | .read => s.readFile setup
  | .finish outcome => s.finish setup outcome
  | .settle complete => s.settle setup complete
  | .die => some s.die

end ArchonSearch.Sync.Edits
