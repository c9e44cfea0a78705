import Mathlib.Data.Rat.Floor
import ArchonSearch.Lib.Keyed
import ArchonSearch.Py.Int
import ArchonSearch.Py.Json

/-!
# The indexing state

The state of the indexing of all collections is one JSON file. Every update of a collection reads
the whole file, changes the entry and writes the file again, so an entry is only as safe as what
`from_dict` makes of it. What it makes of an entry that was written is the entry
(`fromDict_toDict_iff`), with one exception: a chunk size of zero is read as none. No collection
has one, since the configuration refuses it.

So the file behaves as a dictionary in memory does (`read_runStore`), and an update of one entry
leaves the others as they were (`reads_back_and_frames`).

An update is made under a lock, so updates come one after the other; a write may fail, and leaves
the file as it was then.
-/

namespace ArchonSearch.Progress

open Lib Py List Option

/-! ### The state -/

/-- `IndexingStatus`. -/
inductive IndexingStatus where
  | pending
  | inProgress
  | done
  | failed
  deriving DecidableEq

def IndexingStatus.value : IndexingStatus → String
  | .pending => "pending"
  | .inProgress => "in_progress"
  | .done => "done"
  | .failed => "failed"

def IndexingStatus.members : List IndexingStatus := [.pending, .inProgress, .done, .failed]

/-- `CollectionProgress`. What is read back as it is may be any JSON value. -/
structure CollectionProgress where
  status : IndexingStatus
  totalFiles : ℤ := 0
  processedFiles : ℤ := 0
  startedAt : Json := .null
  completedAt : Json := .null
  error : Json := .null
  errorCount : ℤ := 0
  processedPaths : List String := []
  fileMtimes : Dict String ℚ := Keyed.empty
  fileHashes : Dict String String := Keyed.empty
  indexedEmbeddingModel : String := ""
  indexedChunkSize : Option ℤ := none

/-- `IndexingState`. -/
structure IndexingState where
  collections : Dict String CollectionProgress := Keyed.empty
  lastUpdated : Json
  trigger : Option String := none

/-- `IndexingState()`, at a time. -/
def IndexingState.new (now : String) : IndexingState where
  lastUpdated := .str now

/-! ### Writing -/

/-- A value, or `null`. -/
def orNull {α : Type} (f : α → Json) : Option α → Json
  | none => .null
  | some a => f a

/-- The entry of a collection in `to_dict`. -/
def CollectionProgress.toDict (cp : CollectionProgress) : Row :=
  [("status", .str cp.status.value), ("total_files", .int cp.totalFiles),
    ("processed_files", .int cp.processedFiles),
    ("started_at", cp.startedAt),
    ("completed_at", cp.completedAt),
    ("error", cp.error),
    ("error_count", .int cp.errorCount),
    ("processed_paths", .arr (cp.processedPaths.map .str)),
    ("file_mtimes", .obj (cp.fileMtimes.items.map fun e => (e.1, .float e.2))),
    ("file_hashes", .obj (cp.fileHashes.items.map fun e => (e.1, .str e.2))),
    ("indexed_embedding_model", .str cp.indexedEmbeddingModel),
    ("indexed_chunk_size", orNull .int cp.indexedChunkSize)]

/-- `to_dict`. -/
def toDict (state : IndexingState) : Json :=
  .obj [("last_updated", state.lastUpdated), ("trigger", orNull .str state.trigger),
    ("collections", .obj (state.collections.items.map fun e => (e.1, .obj e.2.toDict)))]

/-! ### Reading -/

/-- `_safe_int`, with its default. -/
def safeInt : Json → ℤ
  | .bool b => if b then 1 else 0
  | .int n => n
  -- towards zero
  | .float q => q.num.tdiv q.den
  | .str s => (intOfStr s).getD 0
  | .null => 0
  | .arr _ => 0
  | .obj _ => 0

def str? : Json → Option String
  | .str s => some s
  | _ => none

/-- The number that a value is, as a `float`; a `bool` is none. -/
def number? : Json → Option ℚ
  | .int n => some n
  | .float q => some q
  | _ => none

/-- `processed_paths`, where all of them are strings. -/
def readPaths : Json → List String
  | .arr items => (items.mapM str?).getD []
  | _ => []

def readDict {α : Type} (read : Json → Option α) : Json → Dict String α
  | .obj fields =>
    match fields.mapM fun e => (read e.2).map fun a => (e.1, a) with
    | some items => Keyed.ofList items
    | none => Keyed.empty
  | _ => Keyed.empty

/-- `… or None`, of a number. -/
def orNone (n : ℤ) : Option ℤ := if n = 0 then none else some n

/-- What `from_dict` makes of the entry of a collection. -/
def progressOfDict (raw : Row) : CollectionProgress where
  status := (enumOf IndexingStatus.members IndexingStatus.value
    (raw.getD "status" (.str "pending"))).getD .pending
  totalFiles := safeInt (raw.getD "total_files" (.int 0))
  processedFiles := safeInt (raw.getD "processed_files" (.int 0))
  startedAt := raw.getD "started_at" .null
  completedAt := raw.getD "completed_at" .null
  error := raw.getD "error" .null
  errorCount := safeInt (raw.getD "error_count" (.int 0))
  processedPaths := readPaths (raw.getD "processed_paths" (.arr []))
  fileMtimes := readDict number? (raw.getD "file_mtimes" (.obj []))
  fileHashes := readDict str? (raw.getD "file_hashes" (.obj []))
  indexedEmbeddingModel := (str? (raw.getD "indexed_embedding_model" (.str ""))).getD ""
  indexedChunkSize := orNone (safeInt (raw.getD "indexed_chunk_size" .null))

def readCollection (collections : Dict String CollectionProgress) (e : String × Json) :
    Dict String CollectionProgress :=
  match e.2 with
  | .obj raw => collections.insert (e.1, progressOfDict raw)
  | _ => collections

/-- `from_dict`, at a time. -/
def fromDict (now : String) : Json → IndexingState
  | .obj data =>
    match Row.getD data "collections" (.obj []) with
    | .obj collectionsRaw =>
      { collections := collectionsRaw.foldl readCollection Keyed.empty
        lastUpdated := Row.getD data "last_updated" (.str now)
        trigger := str? (Row.getD data "trigger" .null) }
    | _ => IndexingState.new now
  | _ => IndexingState.new now

/-! ### The round trip -/

section RoundTrip

variable {α : Type}

def CollectionProgress.readBack (cp : CollectionProgress) : CollectionProgress :=
  { cp with indexedChunkSize := cp.indexedChunkSize.bind orNone }

theorem str?_str (s : String) : str? (.str s) = some s := rfl

theorem number?_float (q : ℚ) : number? (.float q) = some q := rfl

theorem mapM_map_eq_some {β : Type} {f : β → Option α} {g : α → β} (h : ∀ a, f (g a) = some a)
    (l : List α) : (l.map g).mapM f = some l := by
  induction l with
  | nil => rfl
  | cons a l ih =>
    rw [map_cons, mapM_cons, h, ih]
    rfl

theorem readDict_obj {read : Json → Option α} {write : α → Json}
    (h : ∀ a, read (write a) = some a) (d : Dict String α) :
    readDict read (.obj (d.items.map fun e => (e.1, write e.2))) = d := by
  have his : (d.items.map fun e => (e.1, write e.2)).mapM
      (fun e => (read e.2).map fun a => (e.1, a)) = some d.items :=
    mapM_map_eq_some (fun e => by rw [h]; rfl) d.items
  rw [readDict, his]
  exact Keyed.ext (Keyed.items_ofList d.nodup)

theorem enumOf_value (status : IndexingStatus) :
    enumOf IndexingStatus.members IndexingStatus.value (.str status.value) = some status := by
  cases status <;> decide

theorem orNone_safeInt_orNull (n : Option ℤ) :
    orNone (safeInt (orNull .int n)) = n.bind orNone := by
  rcases n with - | n
  · rfl
  · rfl

/-- **An entry is read back**, but for a chunk size of zero. -/
theorem progressOfDict_toDict (cp : CollectionProgress) :
    progressOfDict cp.toDict = cp.readBack := by
  have hpat : readPaths (.arr (cp.processedPaths.map .str)) = cp.processedPaths := by
    rw [readPaths, mapM_map_eq_some str?_str]
    rfl
  unfold progressOfDict CollectionProgress.readBack CollectionProgress.toDict
  simp only [Row.getD, lookup_cons, String.reduceBEq, getD_some]
  rw [enumOf_value, hpat, readDict_obj number?_float, readDict_obj str?_str, orNone_safeInt_orNull]
  rfl

/-- No chunk size is zero. -/
def IndexingState.Storable (state : IndexingState) : Prop :=
  ∀ e ∈ state.collections, e.2.indexedChunkSize ≠ some 0

theorem readBack_eq_self {cp : CollectionProgress} :
    cp.readBack = cp ↔ cp.indexedChunkSize ≠ some 0 := by
  rcases cp with ⟨_, _, _, _, _, _, _, _, _, _, _, size⟩
  rcases size with - | n
  · simp [CollectionProgress.readBack]
  · by_cases hn : n = 0 <;> simp [CollectionProgress.readBack, orNone, hn]

def readBackEntry (e : String × CollectionProgress) : String × CollectionProgress :=
  (e.1, e.2.readBack)

theorem readBackEntry_fst (e : String × CollectionProgress) : (readBackEntry e).1 = e.1 := rfl

theorem map_readBackEntry_iff {l : List (String × CollectionProgress)} :
    l.map readBackEntry = l ↔ ∀ e ∈ l, e.2.indexedChunkSize ≠ some 0 := by
  rw [← List.map_id l, List.map_map, Function.comp_id, map_inj_left, List.map_id]
  refine forall₂_congr fun e _ => ?_
  rw [← readBack_eq_self]
  exact ⟨congrArg Prod.snd, fun h => Prod.ext rfl h⟩

theorem foldl_readCollection (l : List (String × CollectionProgress))
    (d : Dict String CollectionProgress) :
    (l.map fun e => (e.1, Json.obj e.2.toDict)).foldl readCollection d =
      (l.map readBackEntry).foldl Keyed.insert d := by
  induction l generalizing d with
  | nil => rfl
  | cons e l ih =>
    have hrd : readCollection d (e.1, .obj e.2.toDict) = d.insert (readBackEntry e) := by
      rw [readBackEntry, ← progressOfDict_toDict]
      rfl
    rw [map_cons, foldl_cons, ih, hrd]
    rfl

/-- **What is read of a state that was written.** -/
theorem fromDict_toDict (now : String) (state : IndexingState) :
    fromDict now (toDict state) =
      { state with collections := state.collections.map readBackEntry readBackEntry_fst } := by
  have htrig : str? (orNull .str state.trigger) = state.trigger := by
    rcases state.trigger with - | trigger <;> rfl
  unfold fromDict toDict
  simp only [Row.getD, lookup_cons, String.reduceBEq, getD_some]
  rw [htrig, foldl_readCollection]
  congr 1
  refine Keyed.ext (Keyed.items_ofList ?_)
  exact (state.collections.map readBackEntry readBackEntry_fst).nodup

/-- **A state is read back exactly if no chunk size is zero.** -/
theorem fromDict_toDict_iff (now : String) (state : IndexingState) :
    fromDict now (toDict state) = state ↔ state.Storable := by
  rw [fromDict_toDict]
  constructor
  · intro h
    exact map_readBackEntry_iff.mp (congrArg (fun s : IndexingState => s.collections.items) h)
  · intro h
    have hmap : state.collections.map readBackEntry readBackEntry_fst = state.collections :=
      Keyed.ext (map_readBackEntry_iff.mpr h)
    rw [hmap]

end RoundTrip

/-! ### The store -/

inductive StateFile where
  | missing
  | json (data : Json)

/-- `IndexingStateStore.read`. -/
def read (now : String) : StateFile → Option IndexingState
  | .missing => none
  | .json data => some (fromDict now data)

def resetProgress (cp : CollectionProgress) : CollectionProgress where
  status := .pending
  totalFiles := cp.totalFiles
  processedFiles := cp.processedFiles
  processedPaths := cp.processedPaths
  fileMtimes := cp.fileMtimes
  fileHashes := cp.fileHashes
  indexedEmbeddingModel := cp.indexedEmbeddingModel
  indexedChunkSize := cp.indexedChunkSize

def resetEntry (predicate : CollectionProgress → Bool) (e : String × CollectionProgress) :
    String × CollectionProgress :=
  (e.1, if predicate e.2 then resetProgress e.2 else e.2)

theorem resetEntry_fst (predicate : CollectionProgress → Bool)
    (e : String × CollectionProgress) : (resetEntry predicate e).1 = e.1 := rfl

inductive Update where
  | write (state : IndexingState)
  | updateCollection (name : String) (progress : CollectionProgress)
  | setTrigger (trigger : Option String)
  | removeCollection (name : String)
  | resetInProgress (predicate : CollectionProgress → Bool)

/-- The state that an update writes, from the one that it has read; none if it writes nothing. -/
def Update.apply (now : String) (state : Option IndexingState) : Update → Option IndexingState
  | .write new => some new
  | .updateCollection name progress =>
    let old := state.getD (.new now)
    some { old with
      collections := old.collections.insert (name, progress)
      lastUpdated := .str now }
  | .setTrigger trigger =>
    some { state.getD (.new now) with trigger := trigger, lastUpdated := .str now }
  | .removeCollection name =>
    match state with
    | none => none
    | some old =>
      if (Dict.get old.collections name).isNone then none
      else some { old with collections := old.collections.erase name, lastUpdated := .str now }
  | .resetInProgress predicate =>
    match state with
    | none => none
    | some old =>
      if old.collections.items.any fun e => predicate e.2 then
        some { old with
          collections := old.collections.map (resetEntry predicate) (resetEntry_fst predicate)
          lastUpdated := .str now }
      else none

structure Event where
  /-- `datetime.now(UTC).isoformat()`. -/
  now : String
  update : Update
  written : Bool

def stepStore (file : StateFile) (e : Event) : StateFile :=
  match e.update.apply e.now (read e.now file) with
  | some state => if e.written then .json (toDict state) else file
  | none => file

def runStore (file : StateFile) (events : List Event) : StateFile := events.foldl stepStore file

/-! ### The dictionary in memory -/

/-- **What the store is for**: a state that is updated in memory. -/
def stepMemory (state : Option IndexingState) (e : Event) : Option IndexingState :=
  match e.update.apply e.now state with
  | some new => if e.written then some new else state
  | none => state

def runMemory (state : Option IndexingState) (events : List Event) : Option IndexingState :=
  events.foldl stepMemory state

section Refinement

variable {now : String} {state : Option IndexingState} {old : IndexingState}

/-- The update brings no chunk size of zero. -/
def Update.Storable : Update → Prop
  | .write new => new.Storable
  | .updateCollection _ progress => progress.indexedChunkSize ≠ some 0
  | .setTrigger _ => True
  | .removeCollection _ => True
  | .resetInProgress _ => True

theorem storable_getD (h : ∀ s ∈ state, s.Storable) : (state.getD (.new now)).Storable := by
  rcases state with - | s
  · exact fun e he => absurd he (Keyed.notMem_empty e)
  · exact h s rfl

/-- **An update keeps the states storable.** -/
theorem Update.Storable.apply {update : Update} (hupd : update.Storable)
    (h : ∀ s ∈ state, s.Storable) : ∀ s ∈ update.apply now state, s.Storable := by
  intro s hs
  cases update with
  | write new =>
    cases hs
    exact hupd
  | updateCollection name progress =>
    cases hs
    intro e he
    rcases Keyed.mem_insert.mp he with rfl | ⟨he, -⟩
    · exact hupd
    · exact storable_getD h e he
  | setTrigger trigger =>
    cases hs
    exact storable_getD h
  | removeCollection name =>
    rcases state with - | old
    · cases hs
    · simp only [Update.apply] at hs
      split_ifs at hs
      · cases hs
      · cases hs
        exact fun e he => h old rfl e (Keyed.mem_erase.mp he).1
  | resetInProgress predicate =>
    rcases state with - | old
    · cases hs
    simp only [Update.apply] at hs
    split_ifs at hs
    · cases hs
      intro e he
      obtain ⟨e', he', rfl⟩ : ∃ e' ∈ old.collections, resetEntry predicate e' = e :=
        List.mem_map.mp he
      have hsize : (resetEntry predicate e').2.indexedChunkSize = e'.2.indexedChunkSize := by
        unfold resetEntry
        split_ifs <;> rfl
      exact hsize ▸ h old rfl e' he'
    · cases hs

/-- The file reads as this state. -/
def Holds (file : StateFile) (state : Option IndexingState) : Prop :=
  (∀ s ∈ state, s.Storable) ∧ ∀ now, read now file = state

variable {e : Event} {file : StateFile}

/-- One update: the file holds what it has written, or what it had. -/
theorem Holds.step (h : Holds file state)
    (hupd : e.update.Storable) : Holds (stepStore file e) (stepMemory state e) := by
  unfold stepStore stepMemory
  rw [h.2]
  have hstor : ∀ s ∈ e.update.apply e.now state, s.Storable := hupd.apply h.1
  rcases happ : e.update.apply e.now state with - | new
  · exact h
  · simp only
    split_ifs
    · have hw := hstor new happ
      refine ⟨fun s hs => some.inj hs ▸ hw, fun now => ?_⟩
      exact congrArg some ((fromDict_toDict_iff now new).mpr hw)
    · exact h

/-- **The file behaves as a dictionary in memory**, in every sequence of updates. -/
theorem read_runStore {events : List Event} (h : Holds file state)
    (hupd : ∀ e ∈ events, e.update.Storable) :
    Holds (runStore file events) (runMemory state events) := by
  induction events generalizing file state with
  | nil => exact h
  | cons e events ih =>
    obtain ⟨he, hupd⟩ := forall_mem_cons.mp hupd
    exact ih (h.step he) hupd

def entry (state : Option IndexingState) (name : String) : Option CollectionProgress :=
  state.bind fun s => Dict.get s.collections name

/-- The update is one of this entry. -/
def Update.Names (state : Option IndexingState) (name : String) : Update → Prop
  | .write _ => True
  | .updateCollection name' _ => name = name'
  | .setTrigger _ => False
  | .removeCollection name' => name = name'
  | .resetInProgress predicate => ∃ cp ∈ entry state name, predicate cp = true

theorem entry_getD (name : String) :
    Dict.get (state.getD (.new now)).collections name = entry state name := by
  rcases state with - | s <;> rfl

theorem get_map_resetEntry (predicate : CollectionProgress → Bool)
    (d : Dict String CollectionProgress) (name : String) :
    Dict.get (d.map (resetEntry predicate) (resetEntry_fst predicate)) name =
      (Dict.get d name).map fun cp => if predicate cp then resetProgress cp else cp := by
  rw [Dict.get, Keyed.get?_map, Option.map_map, Dict.get, Option.map_map]
  rfl

variable {name : String}

/-- **An update leaves the entries that it does not name.** -/
theorem entry_stepMemory_of_not_names
    (hnm : ¬ e.update.Names state name) : entry (stepMemory state e) name = entry state name := by
  unfold stepMemory
  rcases happ : e.update.apply e.now state with - | new
  · rfl
  simp only
  split_ifs
  · rcases e with ⟨now, update, written⟩
    cases update with
    | write new' => exact absurd trivial hnm
    | updateCollection name' progress =>
      cases happ
      exact (Dict.get_insert_of_ne _ hnm _).trans (entry_getD name)
    | setTrigger trigger =>
      cases happ
      exact entry_getD name
    | removeCollection name' =>
      rcases state with - | old
      · cases happ
      · simp only [Update.apply] at happ
        split_ifs at happ
        cases happ
        exact (Dict.get_erase _ _ _).trans (if_neg hnm)
    | resetInProgress predicate =>
      rcases state with - | old
      · cases happ
      · simp only [Update.apply] at happ
        split_ifs at happ
        cases happ
        refine (get_map_resetEntry predicate old.collections name).trans ?_
        rcases hg : Dict.get old.collections name with - | cp
        · exact hg.symm
        · have hkeep : ¬ predicate cp = true := fun hp => hnm ⟨cp, hg, hp⟩
          rw [map_some, if_neg hkeep]
          exact hg.symm
  · rfl

def Update.entryAfter (state : Option IndexingState) (name : String) :
    Update → Option CollectionProgress
  | .write new => Dict.get new.collections name
  | .updateCollection _ progress => some progress
  | .setTrigger _ => entry state name
  | .removeCollection _ => none
  | .resetInProgress _ => (entry state name).map resetProgress

/-- **An update changes the entries that it names**, as far as they are there. -/
theorem entry_stepMemory_of_names (hwrt : e.written = true)
    (hnm : e.update.Names state name) :
    entry (stepMemory state e) name = e.update.entryAfter state name := by
  unfold stepMemory
  rcases e with ⟨now, update, written⟩
  obtain rfl : written = true := hwrt
  cases update with
  | write new => rfl
  | updateCollection name' progress =>
    obtain rfl : name = name' := hnm
    exact Dict.get_insert_self _ name progress
  | setTrigger trigger => exact absurd hnm id
  | removeCollection name' =>
    obtain rfl : name = name' := hnm
    rcases state with - | old
    · rfl
    · simp only [Update.apply]
      split_ifs with hn
      · exact isNone_iff_eq_none.mp hn
      · exact (Dict.get_erase _ _ _).trans (if_pos rfl)
  | resetInProgress predicate =>
    obtain ⟨cp, hent, hmat⟩ := hnm
    rcases state with - | old
    · cases hent
    · have hg : Dict.get old.collections name = some cp := hent
      have hany : (old.collections.items.any fun e => predicate e.2) = true :=
        List.any_eq_true.mpr ⟨(name, cp), Dict.get_eq_some_iff.mp hg, hmat⟩
      simp only [Update.apply, if_pos hany]
      refine (get_map_resetEntry predicate old.collections name).trans ?_
      rw [hg, map_some, if_pos hmat]
      exact (congrArg (Option.map resetProgress) hg).symm

/-- **The state is read back as it was written, and an update of one entry leaves the others**, for
all states without a chunk size of zero. -/
theorem reads_back_and_frames :
    (∀ now state, state.Storable → fromDict now (toDict state) = state) ∧
    (∀ file state events, Holds file state → (∀ e ∈ events, e.update.Storable) →
      Holds (runStore file events) (runMemory state events)) ∧
    ∀ file state e, Holds file state → e.update.Storable → ∀ name now,
      (¬ e.update.Names state name → entry (read now (stepStore file e)) name = entry state name) ∧
      (e.written = true → e.update.Names state name →
        entry (read now (stepStore file e)) name = e.update.entryAfter state name) := by
  refine ⟨fun now state => (fromDict_toDict_iff now state).mpr,
    fun file state events => read_runStore, fun file state e h hupd name now => ?_⟩
  rw [(h.step hupd).2 now]
  exact ⟨entry_stepMemory_of_not_names, entry_stepMemory_of_names⟩

def indexedWith (chunkSize : Option ℤ) : CollectionProgress where
  status := .done
  processedPaths := ["/docs/a.md"]
  indexedChunkSize := chunkSize

def oneCollection (chunkSize : Option ℤ) : IndexingState where
  collections := Keyed.ofList [("docs", indexedWith chunkSize)]
  lastUpdated := .str "2026-01-01T00:00:00+00:00"

theorem storable_oneCollection (chunkSize : Option ℤ) :
    (oneCollection chunkSize).Storable ↔ chunkSize ≠ some 0 := by
  have his : (oneCollection chunkSize).collections.items = [("docs", indexedWith chunkSize)] :=
    Keyed.items_ofList (nodup_singleton _)
  simp [IndexingState.Storable, Keyed.mem_def, his, indexedWith]

/-- Another collection is written, and this one is read back. -/
theorem reads_back_and_frames_oneCollection :
    entry (read "" (stepStore (.json (toDict (oneCollection (some 512))))
      ⟨"", .updateCollection "notes" (indexedWith (some 256)), true⟩)) "docs" =
        some (indexedWith (some 512)) := by
  have hstor := (storable_oneCollection (some 512)).mpr (by decide)
  have hho : Holds (.json (toDict (oneCollection (some 512))))
      (some (oneCollection (some 512))) :=
    ⟨fun s hs => some.inj hs ▸ hstor,
      fun now => congrArg some (reads_back_and_frames.1 now _ hstor)⟩
  have hsize : (indexedWith (some 256)).indexedChunkSize ≠ some 0 := by decide
  have hframe := (reads_back_and_frames.2.2 _ _
    ⟨"", .updateCollection "notes" (indexedWith (some 256)), true⟩ hho hsize "docs" "").1
      (by decide : ¬ "docs" = "notes")
  exact hframe.trans rfl

/-- **A chunk size of zero is not read back.** -/
theorem chunkSize_zero_is_lost :
    fromDict "" (toDict (oneCollection (some 0))) ≠ oneCollection (some 0) :=
  fun h => (storable_oneCollection (some 0)).mp ((fromDict_toDict_iff "" _).mp h) rfl

end Refinement

end ArchonSearch.Progress
