import ArchonSearch.Lib.Keyed

/-!
# What is left of a deleted collection

What a collection leaves behind is spread over a table of chunks, the row of its metadata, four
tables of the graph, the indexing state and the manifest of the syncs. `DELETE /collections/{name}`
(`removeCollection`) drops the table and deletes the row; the graph, the indexing state and the
manifest it does not know. So a collection that is created again under the name inherits the graph
of the old one, its files count as indexed (`traces_after_delete`), and a sync may drop it.

`removed_iff` says when nothing is left: exactly if the collection was in none of these to begin
with, and the request has found its row, or there was nothing to drop.

The retries of a failed ingest are not part of this; see `step`.
-/

namespace ArchonSearch.Collections

open Lib Function

/-! ### The stores -/

/-- `DEFAULT_NAMESPACE`. -/
def defaultNamespace : String := "default"

/-- A name that `_COLLECTION_RE` accepts, as far as it matters: it does not begin with the
underscore of the internal tables. -/
structure Name where
  value : String
  head_ne : value.toList.head? ≠ some '_'

structure MetaRow where
  name : String
  /-- `namespace`; a legacy row has none. -/
  ns : Option String

/-- `row.get("namespace") or DEFAULT_NAMESPACE`. -/
def MetaRow.owner (row : MetaRow) : String :=
  match row.ns with
  | none | some "" => defaultNamespace
  | some ns => ns

/-- `SearchConfig`, with its paths resolved. -/
structure Config where
  collections : List String
  /-- `pinned_collections`. -/
  pinned : List String

/-- Everything that is stored: rows of type `ρ`, and entries of the indexing state of type
`π`. -/
structure World (ρ π : Type*) where
  tables : String → Option (List ρ)
  /-- `_archon_collection_meta`. -/
  metas : List MetaRow
  /-- `.indexing_state.json`. -/
  indexing : String → Option π
  /-- `sync_manifest.json`. -/
  manifest : String → Option String
  config : Config

variable {ρ π : Type*}

def World.empty : World ρ π where
  tables _ := none
  metas := []
  indexing _ := none
  manifest _ := none
  config := ⟨[], []⟩

inductive GraphTable where
  | nodes
  | edges
  | communities
  | mentions

def GraphTable.suffix : GraphTable → String
  | nodes => "nodes"
  | edges => "edges"
  | communities => "communities"
  | mentions => "mentions"

/-- `GraphStore._table_name`. -/
def tableName (collection ns suffix : String) : String :=
  "_archon_" ++ "graph_" ++ ns ++ "__" ++ collection ++ "_" ++ suffix

structure Traces (ρ π : Type*) where
  chunks : List ρ
  /-- `get_collection_meta`. -/
  metaRow : Option MetaRow
  graph : GraphTable → List ρ
  indexing : Option π
  manifest : Option String

/-- `get_collection_meta`. -/
def World.collectionMeta (w : World ρ π) (name ns : String) : Option MetaRow :=
  w.metas.find? fun row => row.name = name ∧ row.owner = ns

def World.rows (w : World ρ π) (table : String) : List ρ := (w.tables table).getD []

def World.traces (w : World ρ π) (name ns : String) : Traces ρ π where
  chunks := w.rows name
  metaRow := w.collectionMeta name ns
  graph t := w.rows (tableName name ns t.suffix)
  indexing := w.indexing name
  manifest := w.manifest name

/-! ### The request -/

/-- What the server is like while it handles a `DELETE`, and which of its calls fail. -/
structure Server where
  /-- `path_to_collection_name`. -/
  nameOf : String → String
  hasStore : Bool := true
  lockAcquired : Bool := true
  /-- `find_active_collection_job` finds a job. -/
  hasActiveJob : Bool := false
  hasActiveWriter : Bool := false
  configSaved : Bool := true
  tableDropped : Bool := true
  metaDeleted : Bool := true

/-- What a `DELETE` answers. -/
inductive Answer where
  | notFound
  | pinnedOnly
  | storeBusy
  | persistFailed
  | dropFailed
  /-- 200: `deleted` is true. -/
  | deleted
  deriving DecidableEq

/-- `_all_collection_paths`: the last path of a name wins. -/
def pathOf (server : Server) (config : Config) (name : String) : Option String :=
  (config.collections ++ config.pinned).eraseDups.reverse.find? fun path =>
    server.nameOf path = name

/-- `_visible_meta_or_404`; `none` is a 404. -/
def visibleMeta (server : Server) (w : World ρ π) (name ns : String) : Option (Option MetaRow) :=
  match w.collectionMeta name ns with
  | some row => some (some row)
  | none =>
    if ns = defaultNamespace ∧ (pathOf server w.config name).isSome ∧
        ∀ row ∈ w.metas, row.name ≠ name then some none
    else none

/-- `_drop_path_from_config`. -/
def dropPath (config : Config) (path : String) : Config where
  collections := config.collections.filter fun p => p ≠ path
  pinned := config.pinned.filter fun p => p ≠ path

/-- `_require_collection_access`, of a request that may drop the table. -/
def hasAccess (w : World ρ π) (name ns : String) : Prop :=
  if ∃ row ∈ w.metas, row.name = name then ∃ row ∈ w.metas, row.name = name ∧ row.owner = ns
  else ns = defaultNamespace ∨ w.rows name = []

instance (w : World ρ π) (name ns : String) : Decidable (hasAccess w name ns) := by
  unfold hasAccess
  infer_instance

/-- `drop_collection`, for a caller that ignores that there is no table; `none` if it
raises. -/
def dropCollection (server : Server) (w : World ρ π) (name ns : String) : Option (World ρ π) :=
  if hasAccess w name ns ∧ server.tableDropped = true then
    some { w with tables := update w.tables name none }
  else none

/-- `delete_collection_meta`; `none` if it raises. -/
def deleteCollectionMeta (server : Server) (w : World ρ π) (name ns : String) :
    Option (World ρ π) :=
  if server.metaDeleted = true then
    some { w with metas := w.metas.filter fun row => ¬(row.name = name ∧ row.ns = some ns) }
  else none

/-- `remove_collection` under the lock, once the metadata row is known. -/
def removeLocked (server : Server) (w : World ρ π) (name ns path : String)
    (metaRow : Option MetaRow) : Answer × World ρ π :=
  if server.hasActiveJob then (.storeBusy, w)
  else if server.hasStore && server.hasActiveWriter then (.storeBusy, w)
  else if !server.configSaved then (.persistFailed, w)
  else
    let edited := { w with config := dropPath w.config path }
    match metaRow with
    | none => (.deleted, edited)
    | some _ =>
      -- the entries of the config are inserted again where the drop fails
      match dropCollection server edited name ns with
      | none => (.dropFailed, w)
      | some dropped =>
        match deleteCollectionMeta server dropped name ns with
        | none => (.dropFailed, dropped)
        | some deleted => (.deleted, deleted)

/-- `remove_collection`, with what is stored when it looks for the collection and what is
stored once it has the lock. -/
def removeCollection (server : Server) (before w : World ρ π) (name : Name) (ns : String) :
    Answer × World ρ π :=
  let path := pathOf server before.config name.value
  if server.hasStore then
    match visibleMeta server before name.value ns with
    | none => (.notFound, w)
    | some seen =>
      if before.config.pinned.contains (path.getD "") &&
          !before.config.collections.contains (path.getD "") then (.pinnedOnly, w)
      else if !server.lockAcquired then (.storeBusy, w)
      else
        match seen with
        | some row => removeLocked server w name.value ns (path.getD "") (some row)
        | none =>
          match visibleMeta server w name.value ns with
          | none => (.notFound, w)
          | some found => removeLocked server w name.value ns (path.getD "") found
  else if path.isNone then (.notFound, w)
  else if before.config.pinned.contains (path.getD "") &&
      !before.config.collections.contains (path.getD "") then (.pinnedOnly, w)
  else removeLocked server w name.value ns (path.getD "") none

/-! ### What has to hold -/

variable {server : Server} {before w w' : World ρ π} {name : Name} {ns path : String}
  {metaRow : Option MetaRow}

/-- **Nothing is left** of a collection: what can be read under its name is what can be read
under a name that was never used. -/
def Removed (w : World ρ π) (name : Name) (ns : String) : Prop :=
  w.traces name.value ns = World.empty.traces name.value ns

/-- The request finds the metadata row, when it looks for it or again under the lock. -/
def SawMeta (server : Server) (before w : World ρ π) (name : Name) (ns : String) : Prop :=
  server.hasStore = true ∧
    (before.collectionMeta name.value ns ≠ none ∨ w.collectionMeta name.value ns ≠ none)

/-- What is stored that a `DELETE` does not reach: nothing. -/
structure Reached (server : Server) (before w : World ρ π) (name : Name) (ns : String) :
    Prop where
  graph : ∀ t : GraphTable, w.rows (tableName name.value ns t.suffix) = []
  indexing : w.indexing name.value = none
  manifest : w.manifest name.value = none
  chunks : SawMeta server before w name ns ∨ w.rows name.value = []
  metaRow : ∀ row ∈ w.metas, row.name = name.value → row.owner = ns →
    SawMeta server before w name ns ∧ row.ns = some ns

/-! ### The tables -/

/-- The table of a graph is not the one of a collection. -/
theorem tableName_ne (name : Name) (collection ns suffix : String) :
    tableName collection ns suffix ≠ name.value := by
  intro h
  refine name.head_ne ?_
  rw [← h]
  simp [tableName]

theorem rows_congr {table : String} (h : w.tables table = w'.tables table) :
    w.rows table = w'.rows table := by
  rw [World.rows, World.rows, h]

theorem collectionMeta_eq_none_iff {name : String} :
    w.collectionMeta name ns = none ↔ ∀ row ∈ w.metas, row.name = name → row.owner ≠ ns := by
  simp [World.collectionMeta]

theorem removed_def : Removed w name ns ↔
    w.rows name.value = [] ∧ w.collectionMeta name.value ns = none ∧
      (∀ t : GraphTable, w.rows (tableName name.value ns t.suffix) = []) ∧
      w.indexing name.value = none ∧ w.manifest name.value = none := by
  constructor
  · intro h
    exact ⟨congrArg Traces.chunks h, congrArg Traces.metaRow h,
      fun t => congrFun (congrArg Traces.graph h) t, congrArg Traces.indexing h,
      congrArg Traces.manifest h⟩
  · rintro ⟨hchs, hmeta, hg, hind, hman⟩
    unfold Removed World.traces
    rw [hchs, hmeta, hind, hman, funext hg]
    rfl

/-! ### What a request does -/

def World.dropped (w : World ρ π) (name : Name) (ns path : String) : World ρ π :=
  { w with
    config := dropPath w.config path
    tables := update w.tables name.value none
    metas := w.metas.filter fun row => ¬(row.name = name.value ∧ row.ns = some ns) }

def World.unlisted (w : World ρ π) (path : String) : World ρ π :=
  { w with config := dropPath w.config path }

theorem removeLocked_deleted
    (h : removeLocked server w name.value ns path metaRow = (.deleted, w')) :
    metaRow = none ∧ w' = w.unlisted path ∨ metaRow ≠ none ∧ w' = w.dropped name ns path := by
  unfold removeLocked at h
  split_ifs at h
  · cases h
  · cases h
  · cases h
  cases metaRow with
  | none =>
    cases h
    exact Or.inl ⟨rfl, rfl⟩
  | some row =>
    refine Or.inr ⟨by simp, ?_⟩
    dsimp only at h
    split at h
    · cases h
    rename_i hd
    unfold dropCollection at hd
    split_ifs at hd
    cases hd
    split at h
    · cases h
    · rename_i hdel
      unfold deleteCollectionMeta at hdel
      split_ifs at hdel
      cases hdel
      cases h
      rfl

theorem visibleMeta_eq_some {name : String} {found : Option MetaRow}
    (h : visibleMeta server w name ns = some found) : found = w.collectionMeta name ns := by
  unfold visibleMeta at h
  split at h
  · rename_i row hr
    cases h
    exact hr.symm
  · rename_i hr
    split_ifs at h
    cases h
    exact hr.symm

/-- **What a request has done that answers `deleted`.** -/
theorem removeCollection_deleted
    (h : removeCollection server before w name ns = (.deleted, w')) :
    (¬SawMeta server before w name ns ∧ ∃ path, w' = w.unlisted path) ∨
      (SawMeta server before w name ns ∧ ∃ path, w' = w.dropped name ns path) := by
  unfold removeCollection at h
  by_cases hstore : server.hasStore = true
  · rw [if_pos hstore] at h
    split at h
    · cases h
    rename_i seen hseen
    obtain rfl := visibleMeta_eq_some hseen
    split_ifs at h
    · cases h
    · cases h
    cases hbef : before.collectionMeta name.value ns with
    | some row =>
      rw [hbef] at h
      rcases removeLocked_deleted h with ⟨hn, -⟩ | ⟨-, hw⟩
      · cases hn
      · exact Or.inr ⟨⟨hstore, Or.inl (by simp [hbef])⟩, _, hw⟩
    | none =>
      rw [hbef] at h
      dsimp only at h
      split at h
      · cases h
      rename_i found hfnd
      obtain rfl := visibleMeta_eq_some hfnd
      rcases removeLocked_deleted h with ⟨hn, hw⟩ | ⟨hs, hw⟩
      · refine Or.inl ⟨?_, _, hw⟩
        rintro ⟨-, hsaw | hsaw⟩
        · exact hsaw hbef
        · exact hsaw hn
      · exact Or.inr ⟨⟨hstore, Or.inr hs⟩, _, hw⟩
  · rw [if_neg hstore] at h
    split_ifs at h
    · cases h
    · cases h
    rcases removeLocked_deleted h with ⟨-, hw⟩ | ⟨hne, -⟩
    · exact Or.inl ⟨fun hsaw => hstore hsaw.1, _, hw⟩
    · exact absurd rfl hne

/-! ### When nothing is left -/

theorem rows_dropped_self : (w.dropped name ns path).rows name.value = [] := by
  simp [World.rows, World.dropped]

theorem rows_dropped_graph (t : GraphTable) :
    (w.dropped name ns path).rows (tableName name.value ns t.suffix) =
      w.rows (tableName name.value ns t.suffix) :=
  rows_congr (update_of_ne (tableName_ne name name.value ns t.suffix) _ _)

theorem collectionMeta_dropped :
    (w.dropped name ns path).collectionMeta name.value ns = none ↔
      ∀ row ∈ w.metas, row.name = name.value → row.owner = ns → row.ns = some ns := by
  rw [collectionMeta_eq_none_iff]
  constructor
  · intro h row hr hnm ho
    by_contra hns
    exact h row (List.mem_filter.mpr ⟨hr, by simp [hns]⟩) hnm ho
  · intro h row hr hnm ho
    obtain ⟨hm, hnot⟩ := List.mem_filter.mp hr
    have hns := h row hm hnm ho
    simp [hnm, hns] at hnot

/-- **Nothing is left of a collection** after a `DELETE` that answers `deleted`, exactly if
the `DELETE` reaches all there was of it. -/
theorem removed_iff (h : removeCollection server before w name ns = (.deleted, w')) :
    Removed w' name ns ↔ Reached server before w name ns := by
  rcases removeCollection_deleted h with ⟨hsaw, path, rfl⟩ | ⟨hsaw, path, rfl⟩
  · have heq : Removed (w.unlisted path) name ns ↔ Removed w name ns := Iff.rfl
    rw [heq, removed_def, collectionMeta_eq_none_iff]
    constructor
    · rintro ⟨hchs, hmeta, hg, hind, hman⟩
      exact ⟨hg, hind, hman, Or.inr hchs, fun row hr hnm ho => absurd ho (hmeta row hr hnm)⟩
    · intro hrch
      exact ⟨hrch.chunks.resolve_left hsaw,
        fun row hr hnm ho => hsaw (hrch.metaRow row hr hnm ho).1,
        hrch.graph, hrch.indexing, hrch.manifest⟩
  · rw [removed_def, collectionMeta_dropped]
    simp only [rows_dropped_graph]
    constructor
    · rintro ⟨-, hmeta, hg, hind, hman⟩
      exact ⟨hg, hind, hman, Or.inl hsaw, fun row hr hnm ho => ⟨hsaw, hmeta row hr hnm ho⟩⟩
    · intro hrch
      exact ⟨rows_dropped_self,
        fun row hr hnm ho => (hrch.metaRow row hr hnm ho).2,
        hrch.graph, hrch.indexing, hrch.manifest⟩

def plainWorld : World String String where
  tables := update (fun _ => none) "notes" (some ["chunk"])
  metas := [⟨"notes", some "default"⟩]
  indexing _ := none
  manifest _ := none
  config := ⟨[], []⟩

/-- `notes`. -/
def notes : Name := ⟨"notes", by decide⟩

def quietServer : Server where
  nameOf path := path

theorem removed_iff_plainWorld :
    Removed (plainWorld.dropped notes "default" "") notes "default" ↔
      Reached quietServer plainWorld plainWorld notes "default" :=
  removed_iff rfl

def syncedWorld : World String String where
  tables := update (update (fun _ => none) "notes" (some ["chunk"]))
    (tableName "notes" "default" "nodes") (some ["node"])
  metas := [⟨"notes", some "default"⟩]
  indexing := update (fun _ => none) "notes" (some "done")
  manifest := update (fun _ => none) "notes" (some "/notes")
  config := ⟨["notes"], []⟩

/-- **A collection that was synced leaves traces** when it is deleted: the node of its graph
and the entry of its indexing state are still there. -/
theorem traces_after_delete :
    (removeCollection quietServer syncedWorld syncedWorld notes "default").1 = .deleted ∧
      ¬Removed (removeCollection quietServer syncedWorld syncedWorld notes "default").2 notes
        "default" := by
  refine ⟨by decide, fun h => ?_⟩
  have hind := (removed_def.mp h).2.2.2.1
  revert hind
  decide

end ArchonSearch.Collections
