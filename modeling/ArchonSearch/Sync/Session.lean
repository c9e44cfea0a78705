import ArchonSearch.Lib.Prog
import ArchonSearch.Lib.Run
import ArchonSearch.Sync.Tree

/-!
# A sync

`SearchCollectionSync.sync` brings the collections in line with the configured paths. A collection
without a table, or whose indexing state is not `DONE`, is ingested as a directory
(`ingestCollection`); of a collection that is `DONE` the files are compared with the recorded
modification times, and what differs is applied (`applyCollectionChanges`).

The sync is a program that may die at any of its calls (`ArchonSearch.Lib.Prog`). What the
calls answer, and what happens to the config while they are awaited, is a list of replies;
where it ends the process dies. The files do not change while a sync runs. A sync that
raises is one that dies: neither has a result, and the next one starts the same way.

The rows of a table are kept by the path of their document, the hash of which is their
document id. The namespace of a collection, the counters and times of the indexing state
and the renaming of the table `archon-history`, which no path is named after, are left out,
and so are writes of the indexing state that fail, which are logged and passed over.
-/

namespace ArchonSearch.Sync

open Lib Prog

/-! ### The state -/

/-- `IndexingStatus`. -/
inductive IndexingStatus where
  | pending
  | inProgress
  | done
  | failed
  deriving DecidableEq

/-- `CollectionProgress`, as it is read back. -/
structure CollectionProgress (τ : Type) where
  status : IndexingStatus
  processedPaths : List Path := []
  fileMtimes : Dict Path τ := Keyed.empty
  indexedEmbeddingModel : String := ""
  indexedChunkSize : Option ℕ := none

abbrev Rows (χ : Type) := List (Path × χ)

structure World (γ τ χ : Type) where
  files : Dict Path (File γ τ)
  (directories config : List Path)
  tables : Dict Name (Rows χ)
  collections : Dict Name (CollectionProgress τ)
  /-- `sync_manifest.json`. -/
  manifest : Dict Name Path

inductive Edit where
  /-- `DELETE /collections/{name}`; the table is dropped or not. -/
  | delete : Name → (dropped : Bool) → Edit
  | add : Path → Edit

/-- How a call ends. `written` are the chunks that an ingest has added when it ends early,
or none where it has not yet deleted the old ones. -/
inductive Outcome where
  | returns
  | fails (written : Option ℕ)
  | raises (written : Option ℕ)
  | dies (written : Option ℕ)

structure Reply where
  edits : List Edit := []
  outcome : Outcome := .returns

structure Session (γ τ χ : Type) where
  world : World γ τ χ
  replies : List Reply
  writer : Option Name := none
  /-- An ingest of a file did not return `ok`. -/
  failed : Bool := false

variable {γ τ χ : Type} (setup : Setup γ χ)

/-! ### The config -/

/-- `DELETE /collections/{name}`: the path goes from the config, then the table is
dropped. The indexing state is left as it is. -/
def World.delete (w : World γ τ χ) (name : Name) (dropped : Bool) : World γ τ χ :=
  let config :=
    match Dict.get (allCollectionPaths setup w.config) name with
    | some path => w.config.filter (· ≠ path)
    | none => w.config
  { w with config := config, tables := if dropped then w.tables.erase name else w.tables }

def World.edit (writer : Option Name) (w : World γ τ χ) : Edit → World γ τ χ
  | .delete name dropped => if writer = some name then w else w.delete setup name dropped
  | .add path => { w with config := w.config ++ [path] }

/-! ### Calls -/

def Session.await (s : Session γ τ χ) (reply : Reply) (replies : List Reply) : Session γ τ χ :=
  { s with world := reply.edits.foldl (World.edit setup s.writer) s.world, replies := replies }

def call : Prog (Session γ τ χ) Outcome := fun s =>
  match s.replies with
  | [] => (none, s)
  | reply :: replies => (some reply.outcome, s.await setup reply replies)

def write (f : World γ τ χ → World γ τ χ) : Prog (Session γ τ χ) Unit := do
  match ← call setup with
  | .dies _ => die
  | _ => modify fun s => { s with world := f s.world }

def attempt : Prog (Session γ τ χ) Bool := do
  match ← call setup with
  | .dies _ => die
  | .raises _ => pure false
  | _ => pure true

/-- `_safe_state_update`. -/
def safeStateUpdate (name : Name) (progress : CollectionProgress τ) :
    Prog (Session γ τ χ) Unit :=
  write setup fun w => { w with collections := w.collections.insert (name, progress) }

/-! ### Documents -/

def deleteRows (rows : Rows χ) (path : Path) : Rows χ := rows.filter fun row => row.1 ≠ path

def Session.setTable (s : Session γ τ χ) (name : Name) (rows : Rows χ) : Session γ τ χ :=
  { s with world := { s.world with tables := s.world.tables.insert (name, rows) } }

def World.rows (w : World γ τ χ) (name : Name) : Rows χ := (Dict.get w.tables name).getD []

/-- What an ingest of a document has written when it ends: nothing, or the old rows are
deleted and the first of the chunks are added. A document without chunks writes nothing. -/
def Session.writeDocument (name : Name) (path : Path) (chunks : List χ) (written : Option ℕ)
    (s : Session γ τ χ) : Session γ τ χ :=
  match written with
  | none => s
  | some n =>
    if chunks = [] then s
    else s.setTable name
      (deleteRows (s.world.rows name) path ++ (chunks.take n).map fun chunk => (path, chunk))

inductive IngestStatus where
  /-- `status = "ok"`. -/
  | ok
  /-- `status = "error"`. -/
  | error
  | raised

/-- An ingest did not return `ok`. -/
def Session.noteFailure (s : Session γ τ χ) : Session γ τ χ := { s with failed := true }

/-- `ingest_file`. -/
def ingestFile (name : Name) (path : Path) : Prog (Session γ τ χ) IngestStatus := do
  let s ← get
  match Dict.get s.world.files path with
  | none => do
    modify Session.noteFailure
    pure .error
  | some file =>
    if isSidecar path then pure .ok
    else if setup.denied path file.content then do
      modify Session.noteFailure
      pure .error
    else do
      let chunks := setup.chunks path file.content
      match ← call setup with
      | .returns => do
        modify (Session.writeDocument name path chunks (some chunks.length))
        pure .ok
      | .fails written => do
        modify fun s => (s.writeDocument name path chunks written).noteFailure
        pure .error
      | .raises written => do
        modify fun s => (s.writeDocument name path chunks written).noteFailure
        pure .raised
      | .dies written => do
        modify (Session.writeDocument name path chunks written)
        die

def Session.deleteDocument (name : Name) (path : Path) (s : Session γ τ χ) : Session γ τ χ :=
  match Dict.get s.world.tables name with
  | some rows => s.setTable name (deleteRows rows path)
  | none => s

/-- `delete_by_source_path`; whether it returns. -/
def deleteBySourcePath (name : Name) (path : Path) : Prog (Session γ τ χ) Bool := do
  match ← call setup with
  | .dies none => die
  | .dies (some _) => do
    modify (Session.deleteDocument name path)
    die
  | .raises none => pure false
  | .raises (some _) => do
    modify (Session.deleteDocument name path)
    pure false
  | .returns | .fails _ => do
    modify (Session.deleteDocument name path)
    pure true

/-! ### Ingesting a directory -/

/-- `collection_sync_failed_detail`. -/
def collectionSyncFailedDetail (name : Name) : String :=
  "sync of collection '" ++ name ++ "' failed; see the server log for details"

/-- `collection_sync_busy_detail`. -/
def collectionSyncBusyDetail (name : Name) : String :=
  "sync of collection '" ++ name ++
    "' skipped: the collection is busy with another write; the next sync retries it"

/-- `collection_drop_deferred_detail`. -/
def collectionDropDeferredDetail (name : Name) : String :=
  "collection '" ++ name ++
    "' is no longer configured but was not removed: it is busy; the next sync retries"

def checkpointInterval : ℕ := 50

/-- The loop of `ingest_directory`, and `on_file_complete`, which notes the file: whether it
has come to its end, and the files that were ingested. -/
def ingestFiles (name : Name) (resumePaths : List Path) :
    List Path → List Path → Prog (Session γ τ χ) (Bool × List Path)
  | [], newPaths => pure (true, newPaths)
  | path :: paths, newPaths => do
    match ← ingestFile setup name path with
    | .ok => do
      let newPaths := newPaths ++ [path]
      when (newPaths.length % checkpointInterval = 0) (safeStateUpdate setup name
        { status := .inProgress, processedPaths := resumePaths ++ newPaths })
      ingestFiles name resumePaths paths newPaths
    | .error => ingestFiles name resumePaths paths newPaths
    | .raised => pure (false, newPaths)

/-- `ingest_directory`, without the files that are excluded: whether it returns, and the
files that were ingested. -/
def ingestDirectory (name : Name) (root : Path) (resumePaths : List Path) :
    Prog (Session γ τ χ) (Bool × List Path) := do
  -- the access to the collection is checked
  let allowed ← attempt setup
  if allowed then
    let s ← get
    let discovered := discoverIngestFiles setup s.world.files root
    if setup.maxDiscoveredFiles < discovered.length then pure (false, [])
    else
      let files := discovered.filter fun path => !resumePaths.contains path
      if files = [] then pure (true, [])
      else
        -- the default expiry of the collection is read
        let resolved ← attempt setup
        if resolved then
          let (complete, newPaths) ← ingestFiles setup name resumePaths files []
          if complete && newPaths ≠ [] then
            -- the index is rebuilt and the row of the collection is settled
            let finalized ← attempt setup
            pure (finalized, newPaths)
          else pure (complete, newPaths)
        else pure (false, [])
  else pure (false, [])

def mtimesOf (files : Dict Path (File γ τ)) (paths : List Path) : Dict Path τ :=
  Keyed.ofList (paths.filterMap fun path => (Dict.get files path).map fun file =>
    (path, file.mtime))

/-- `_load_processed_paths`. -/
def loadProcessedPaths (w : World γ τ χ) (name : Name) : List Path :=
  match Dict.get w.collections name with
  | some progress => progress.processedPaths
  | none => []

/-- `_chunk_size`, as it is read back from the indexing state: zero is none. -/
def recordedChunkSize : Option ℕ := if setup.chunkSize = 0 then none else some setup.chunkSize

/-- `_ingest_collection`; the error, if there is one. What was processed before is excluded,
and its modification times are those of now. -/
def ingestCollection (name : Name) (root : Path) (activeModel : String) :
    Prog (Session γ τ χ) (Option String) := do
  let s ← get
  let resumePaths := loadProcessedPaths s.world name
  when (resumePaths = []) (safeStateUpdate setup name { status := .pending })
  safeStateUpdate setup name { status := .inProgress, processedPaths := resumePaths }
  let (complete, newPaths) ← ingestDirectory setup name root resumePaths
  let t ← get
  let progress (status : IndexingStatus) : CollectionProgress τ :=
    { status := status
      processedPaths := resumePaths ++ newPaths
      fileMtimes := mtimesOf t.world.files (resumePaths ++ newPaths)
      indexedEmbeddingModel := activeModel
      indexedChunkSize := recordedChunkSize setup }
  if complete then
    safeStateUpdate setup name (progress .done)
    pure none
  else
    safeStateUpdate setup name (progress .failed)
    pure (some (collectionSyncFailedDetail name))

/-! ### Applying changes -/

/-- What `_check_collection_changes` returns. -/
structure Changes where
  (newFiles changedFiles deletedPaths : List Path)
  deriving DecidableEq

/-- `force_full_reindex`. -/
def forceFullReindex (progress : Option (CollectionProgress τ)) (activeModel : String) : Bool :=
  let indexedModel := (progress.map CollectionProgress.indexedEmbeddingModel).getD ""
  let modelChanged := activeModel ≠ indexedModel && indexedModel ≠ ""
  let sizeChanged :=
    match progress.bind CollectionProgress.indexedChunkSize with
    | none => true
    | some size => setup.chunkSize ≠ size
  modelChanged || (sizeChanged && setup.autoReindexOnChunkSizeChange)

/-- `_load_file_mtimes`. -/
def loadFileMtimes (progress : Option (CollectionProgress τ)) : Dict Path τ :=
  match progress with
  | some progress => progress.fileMtimes
  | none => Keyed.empty

variable [DecidableEq τ]

def isCurrent (files : Dict Path (File γ τ)) (mtimes : Dict Path τ) (path : Path) : Bool :=
  (Dict.get mtimes path).isSome && Dict.get mtimes path = (Dict.get files path).map File.mtime

/-- `_check_collection_changes`. -/
def checkCollectionChanges (files : Dict Path (File γ τ)) (root : Path)
    (progress : Option (CollectionProgress τ)) (activeModel : String) : Changes :=
  let mtimes := loadFileMtimes progress
  let eligible := iterEligibleFiles setup files root
  let deleted := (mtimes.items.map Prod.fst).filter fun path => !eligible.contains path
  if forceFullReindex setup progress activeModel then ⟨[], eligible, deleted⟩
  else
    { newFiles := eligible.filter fun path => (Dict.get mtimes path).isNone
      changedFiles := eligible.filter fun path =>
        (Dict.get mtimes path).isSome && !isCurrent files mtimes path
      deletedPaths := deleted }

/-- What `_apply_collection_changes` keeps while it runs. -/
structure Draft (τ : Type) where
  fileMtimes : Dict Path τ
  processedPaths : List Path
  fileCount : ℕ

def Draft.progress (setup : Setup γ χ) (draft : Draft τ) (activeModel : String)
    (status : IndexingStatus) : CollectionProgress τ where
  status := status
  processedPaths := draft.processedPaths
  fileMtimes := draft.fileMtimes
  indexedEmbeddingModel := activeModel
  indexedChunkSize := recordedChunkSize setup

def checkpoint (name : Name) (activeModel : String) (draft : Draft τ) :
    Prog (Session γ τ χ) (Draft τ) := do
  let draft := { draft with fileCount := draft.fileCount + 1 }
  when (draft.fileCount % checkpointInterval = 0)
    (safeStateUpdate setup name (draft.progress setup activeModel .inProgress))
  pure draft

def applyDeleted (name : Name) (activeModel : String) :
    List Path → Draft τ → Prog (Session γ τ χ) (Bool × Draft τ)
  | [], draft => pure (true, draft)
  | path :: paths, draft => do
    let returned ← deleteBySourcePath setup name path
    if returned then
      let draft ← checkpoint setup name activeModel
        { draft with
          fileMtimes := draft.fileMtimes.erase path
          processedPaths := draft.processedPaths.erase path }
      applyDeleted name activeModel paths draft
    else pure (false, draft)

def Draft.ingested (files : Dict Path (File γ τ)) (path : Path) (draft : Draft τ) : Draft τ :=
  { draft with
    fileMtimes :=
      match Dict.get files path with
      | some file => draft.fileMtimes.insert (path, file.mtime)
      | none => draft.fileMtimes
    processedPaths :=
      if path ∈ draft.processedPaths then draft.processedPaths else draft.processedPaths ++ [path] }

/-- The loops over the changed and over the new files; whether they have come to their end.
A changed file whose ingest fails is not processed any more. -/
def applyIngested (name : Name) (activeModel : String) (changed : Bool) :
    List Path → Draft τ → Prog (Session γ τ χ) (Bool × Draft τ)
  | [], draft => pure (true, draft)
  | path :: paths, draft => do
    match ← ingestFile setup name path with
    | .ok => do
      let s ← get
      let draft ← checkpoint setup name activeModel (draft.ingested s.world.files path)
      applyIngested name activeModel changed paths draft
    | .error => do
      let processedPaths :=
        if changed then draft.processedPaths.erase path else draft.processedPaths
      let draft ← checkpoint setup name activeModel { draft with processedPaths := processedPaths }
      applyIngested name activeModel changed paths draft
    | .raised => pure (false, draft)

/-- The three loops of `_apply_collection_changes`, and the index. -/
def applyFiles (name : Name) (activeModel : String) (changes : Changes) (draft : Draft τ) :
    Prog (Session γ τ χ) (Bool × Draft τ) := do
  let (deleted, draft) ← applyDeleted setup name activeModel changes.deletedPaths draft
  if deleted then
    let (updated, draft) ← applyIngested setup name activeModel true changes.changedFiles draft
    if updated then
      let (added, draft) ← applyIngested setup name activeModel false changes.newFiles draft
      if added then
        let refreshed ← attempt setup
        pure (refreshed, draft)
      else pure (false, draft)
    else pure (false, draft)
  else pure (false, draft)

/-- `_apply_collection_changes`; the error, if there is one. -/
def applyCollectionChanges (name : Name) (activeModel : String) (changes : Changes)
    (mtimes : Dict Path τ) : Prog (Session γ τ χ) (Option String) := do
  let s ← get
  let draft : Draft τ := ⟨mtimes, loadProcessedPaths s.world name, 0⟩
  safeStateUpdate setup name (draft.progress setup activeModel .inProgress)
  let (complete, draft) ← applyFiles setup name activeModel changes draft
  if complete then
    safeStateUpdate setup name (draft.progress setup activeModel .done)
    pure none
  else
    safeStateUpdate setup name (draft.progress setup activeModel .failed)
    pure (some (collectionSyncFailedDetail name))

/-! ### The sync -/

inductive Turn where
  | written
  | skipped
  | unchanged
  | pathMissing : Path → Turn
  | failed : (detail : String) → Turn
  deriving DecidableEq

def Turn.error : Turn → Option String
  | pathMissing path => some ("path does not exist: /" ++ "/".intercalate path)
  | failed detail => some detail
  | written | skipped | unchanged => none

/-- `_write_collection`: the write runs as a registered writer, if the path is still
configured. -/
def writeCollection (name : Name) (path : Path)
    (update : Prog (Session γ τ χ) (Option String)) : Prog (Session γ τ χ) Turn := do
  let registered ← attempt setup
  if registered then
    modify fun s => { s with writer := some name }
    let s ← get
    if path ∈ s.world.config then
      let error ← update
      modify fun s => { s with writer := none }
      match error with
      | none => pure .written
      | some detail => pure (.failed detail)
    else
      modify fun s => { s with writer := none }
      pure .skipped
  else pure (.failed (collectionSyncBusyDetail name))

/-- The turn of a collection that is ingested, from its start or from where it stopped. -/
def ingestTurn (desired : Dict Name Path) (activeModel : Name → String) (name : Name) :
    Prog (Session γ τ χ) Turn := do
  let path := (Dict.get desired name).getD []
  let s ← get
  if path ∈ s.world.directories then
    writeCollection setup name path (ingestCollection setup name path (activeModel name))
  else pure (.pathMissing path)

/-- The turn of a collection that is `DONE`, with the state as it was read before. -/
def checkTurn (desired : Dict Name Path) (activeModel : Name → String)
    (state : Dict Name (CollectionProgress τ)) (name : Name) : Prog (Session γ τ χ) Turn := do
  let path := (Dict.get desired name).getD []
  let s ← get
  if path ∈ s.world.directories then
    let progress := Dict.get state name
    let changes := checkCollectionChanges setup s.world.files path progress (activeModel name)
    if changes = ⟨[], [], []⟩ then pure .unchanged
    else
      writeCollection setup name path
        (applyCollectionChanges setup name (activeModel name) changes (loadFileMtimes progress))
  else pure (.pathMissing path)

inductive Drop where
  | removed
  | missing
  | deferred
  deriving DecidableEq

/-- `_drop_if_idle`, and the removal of the collection from the state. -/
def dropIfIdle (name : Name) : Prog (Session γ τ χ) Drop := do
  let dropTable (w : World γ τ χ) : World γ τ χ := { w with tables := w.tables.erase name }
  match ← call setup with
  | .returns => do
    let s ← get
    match Dict.get s.world.tables name with
    | none => pure .missing
    | some _ => do
      modify fun s => { s with world := dropTable s.world }
      write setup fun w => { w with collections := w.collections.erase name }
      pure .removed
  | .fails _ => pure .deferred
  | .raises none | .dies none => die
  | .raises (some _) | .dies (some _) => do
    modify fun s => { s with world := dropTable s.world }
    die

/-- `_reset_stale_in_progress`, for one collection. -/
def resetInProgress (progress : CollectionProgress τ) : CollectionProgress τ :=
  if progress.status = .inProgress then { progress with status := .pending } else progress

/-- `_reset_stale_in_progress`. -/
def resetStaleInProgress (w : World γ τ χ) : World γ τ χ :=
  { w with collections :=
      w.collections.map (fun entry => (entry.1, resetInProgress entry.2)) fun _ => rfl }

/-- `_sort_ingestion_order`: first the pinned ones. -/
def sortIngestionOrder (names : List Name) (desired : Dict Name Path) : List Name :=
  let pathToName (path : Path) := (desired.items.find? fun entry => entry.2 = path).map Prod.fst
  let pinned := ((setup.pinnedCollections.filterMap pathToName).filter
    fun name => names.contains name).eraseDups
  pinned ++ (names.filter fun name => !pinned.contains name).insertionSort (· ≤ ·)

/-- `SyncResult`. -/
structure SyncResult where
  (added removed unchanged : List Name)
  errors : List String
  (skipped updated : List Name)

def namesWith {β : Type} (test : β → Bool) (turns : List (Name × β)) : List Name :=
  (turns.filter fun turn => test turn.2).map Prod.fst

def toResume (state : Dict Name (CollectionProgress τ)) (names : List Name) : List Name :=
  names.filter fun name => (Dict.get state name).any fun progress => progress.status ≠ .done

def Drop.error (name : Name) : Drop → Option String
  | removed => none
  | missing => some ("Collection '" ++ name ++ "' in manifest but not in LanceDB; skipping drop")
  | deferred => some (collectionDropDeferredDetail name)

/-- The manifest that a sync leaves: the collections that are in order, and those whose drop
is to be tried again. -/
def newManifest (desired manifest : Dict Name Path) (inOrder deferred : List Name) :
    Dict Name Path :=
  Keyed.ofList ((desired.items.filter fun entry => inOrder.contains entry.1) ++
    manifest.items.filter fun entry => deferred.contains entry.1)

structure Turns where
  drops : List (Name × Drop)
  (added resumed checked : List (Name × Turn))

/-- Steps 4 to 7 of a sync. The collections to be added have no row yet, so that their model
is not known. -/
def takeTurns (desired : Dict Name Path) (existing managed : List Name)
    (activeModel : Name → String) : Prog (Session γ τ χ) Turns := do
  let desiredNames := desired.items.map Prod.fst
  let drops ← mapEach (dropIfIdle setup)
    (existing.filter fun name => managed.contains name && !desiredNames.contains name)
  let added ← mapEach (ingestTurn setup desired fun _ => "")
    (sortIngestionOrder setup (desiredNames.filter fun name => !existing.contains name) desired)
  let present := desiredNames.filter fun name => existing.contains name
  let s ← get
  let incomplete := toResume s.world.collections present
  let resumed ← mapEach (ingestTurn setup desired activeModel) (incomplete.insertionSort (· ≤ ·))
  let s ← get
  let checked ← mapEach (checkTurn setup desired activeModel s.world.collections)
    (sortIngestionOrder setup (present.filter fun name => !incomplete.contains name) desired)
  pure ⟨drops, added, resumed, checked⟩

def Turn.isUnchanged : Turn → Bool
  | unchanged | pathMissing _ => true
  | written | skipped | failed _ => false

def Turns.result (turns : Turns) (skipped : List Name) : SyncResult where
  added := namesWith (· = .written) turns.added ++ namesWith (· = .written) turns.resumed
  removed := namesWith (· = .removed) turns.drops
  unchanged := (namesWith Turn.isUnchanged turns.checked).insertionSort (· ≤ ·)
  errors := (turns.drops.filterMap fun turn => turn.2.error turn.1) ++
    (turns.added ++ turns.resumed ++ turns.checked).filterMap fun turn => turn.2.error
  skipped := skipped.insertionSort (· ≤ ·)
  updated := namesWith (· = .written) turns.checked

/-- `SearchCollectionSync.sync`. -/
def sync (collections : List Path) (activeModel : Name → String) :
    Prog (Session γ τ χ) SyncResult := do
  write setup resetStaleInProgress
  let listed ← attempt setup
  if listed then
    let s ← get
    let existing := s.world.tables.items.map Prod.fst
    let desired := buildDesired setup collections
    let desiredNames := desired.items.map Prod.fst
    let manifest := s.world.manifest
    let managed := manifest.items.map Prod.fst
    let turns ← takeTurns setup desired existing managed activeModel
    let result := turns.result (existing.filter fun name =>
      !managed.contains name && !desiredNames.contains name)
    let inOrder := result.added ++ result.unchanged ++ result.updated
    let kept := newManifest desired manifest inOrder (namesWith (· = .deferred) turns.drops)
    write setup fun w => { w with manifest := kept }
    pure result
  else die

/-! ### Runs -/

inductive Event (γ τ : Type) where
  | sync : (activeModel : Name → String) → (replies : List Reply) → Event γ τ
  /-- `DELETE /collections/{name}`; the table is dropped or not. -/
  | delete : Name → (dropped : Bool) → Event γ τ
  | configure : List Path → Event γ τ
  | directories : List Path → Event γ τ
  | writeFile : Path → File γ τ → Event γ τ
  | removeFile : Path → Event γ τ

def World.start (w : World γ τ χ) (replies : List Reply) : Session γ τ χ where
  world := w
  replies := replies

def World.sync (w : World γ τ χ) (activeModel : Name → String) (replies : List Reply) :
    Option SyncResult × Session γ τ χ :=
  Sync.sync setup w.config activeModel (w.start replies)

def step (w : World γ τ χ) : Event γ τ → Option (World γ τ χ)
  | .sync activeModel replies => some (w.sync setup activeModel replies).2.world
  | .delete name dropped => some (w.delete setup name dropped)
  | .configure paths => some { w with config := paths }
  | .directories paths => some { w with directories := paths }
  | .writeFile path file => some { w with files := w.files.insert (path, file) }
  | .removeFile path => some { w with files := w.files.erase path }

end ArchonSearch.Sync
