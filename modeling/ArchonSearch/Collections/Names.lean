import ArchonSearch.Collections.Remove
import ArchonSearch.Sync.Tree

/-!
# The names that the routes know

A sync gives the configured paths distinct names (`build_desired`): where two of them end alike it
takes in more of the path, and in the end a hash. The routes look a name up in a map of their own
(`allCollectionPaths`), which knows of no collisions: of the paths that end alike it keeps the last
one, under the name that none of them is indexed under.

Where no two different paths end alike, up to what a name keeps of it, the two maps are equal, and
`DELETE` takes from the config the path that the next sync would create the collection from
(`agree_of_distinct`). Where two do, they may differ, and a collection that was deleted comes back
(`names_differ`).
-/

namespace ArchonSearch.Collections.Names

open Lib Sync List

/-! ### The two maps -/

/-- `SearchConfig`, with its paths as they are written. -/
structure SearchConfig (R : Type) where
  (collections pinnedCollections : List R)
  deriving DecidableEq

variable {γ χ R : Type} [DecidableEq R] (setup : Setup γ χ) (resolve : R → Path)

/-- `_all_collection_paths`. -/
def allCollectionPaths (config : SearchConfig R) : Dict String Path :=
  Keyed.ofList ((config.collections ++ config.pinnedCollections).eraseDups.map fun p =>
    (pathToCollectionName setup (resolve p), resolve p))

def SearchConfig.paths (config : SearchConfig R) : List Path :=
  (config.pinnedCollections ++ config.collections).map resolve

def desired (config : SearchConfig R) : Dict String Path :=
  buildDesired setup (config.paths resolve)

/-! ### The request -/

/-- `_split`, in `_drop_path_from_config`: what is kept, and what is removed with its place. The
empty path is none. -/
def split (resolved : Option Path) (paths : List R) : List R × List (R × ℕ) :=
  (paths.filter fun p => some (resolve p) ≠ resolved,
    paths.zipIdx.filter fun entry => some (resolve entry.1) = resolved)

/-- `_drop_path_from_config`. -/
def dropPathFromConfig (config : SearchConfig R) (resolved : Option Path) : SearchConfig R where
  collections := (split resolve resolved config.collections).1
  pinnedCollections := (split resolve resolved config.pinnedCollections).1

def reinsert (present : List Path) (paths : List R) (entry : R × ℕ) : List R :=
  if present.contains (resolve entry.1) then paths
  else paths.insertIdx (min entry.2 paths.length) entry.1

/-- `_restore`, for one of the lists. -/
def restoreList (paths : List R) (removed : List (R × ℕ)) : List R :=
  removed.foldl (reinsert resolve (paths.map resolve)) paths

/-- `_restore`. -/
def restore (config : SearchConfig R) (resolved : Option Path) : SearchConfig R :=
  let edited := dropPathFromConfig resolve config resolved
  { collections := restoreList resolve edited.collections
      (split resolve resolved config.collections).2
    pinnedCollections := restoreList resolve edited.pinnedCollections
      (split resolve resolved config.pinnedCollections).2 }

/-- What a `DELETE` meets, and which of its calls fail. -/
structure Surroundings where
  hasStore : Bool := true
  (metas lockedMetas : List MetaRow)
  lockAcquired : Bool := true
  /-- `find_active_collection_job` finds a job. -/
  hasActiveJob : Bool := false
  hasActiveWriter : Bool := false
  configSaved : Bool := true
  tableDropped : Bool := true
  metaDeleted : Bool := true

/-- `_visible_meta_or_404`; `none` is a 404. -/
def visibleMeta (metas : List MetaRow) (pathToName : Dict String Path) (name ns : String) :
    Option (Option MetaRow) :=
  match metas.find? fun row => row.name = name ∧ row.owner = ns with
  | some row => some (some row)
  | none =>
    if ns = defaultNamespace ∧ (Dict.get pathToName name).isSome ∧
        ∀ row ∈ metas, row.name ≠ name then some none
    else none

/-- `remove_collection` under the lock, once the metadata row is known. -/
def removeLocked (server : Surroundings) (config : SearchConfig R) (resolved : Option Path)
    (metaRow : Option MetaRow) : Answer × SearchConfig R :=
  let edited := dropPathFromConfig resolve config resolved
  if server.hasActiveJob then (.storeBusy, config)
  else if server.hasStore && server.hasActiveWriter then (.storeBusy, config)
  else if !server.configSaved then (.persistFailed, restore resolve config resolved)
  else
    match metaRow with
    | none => (.deleted, edited)
    | some _ =>
      if !server.tableDropped then (.dropFailed, restore resolve config resolved)
      else if !server.metaDeleted then (.dropFailed, edited)
      else (.deleted, edited)

/-- `remove_collection`, with the config when it looks for the collection and the config that it
edits. -/
def removeCollection (server : Surroundings) (before config : SearchConfig R) (name ns : String) :
    Answer × SearchConfig R :=
  let pathToName := allCollectionPaths setup resolve before
  let resolved := Dict.get pathToName name
  let seen :=
    if server.hasStore then visibleMeta server.metas pathToName name ns
    else if resolved.isNone then none
    else some none
  match seen with
  | none => (.notFound, config)
  | some seen =>
    let holds (paths : List R) := paths.any fun p => some (resolve p) = resolved
    if holds before.pinnedCollections && !holds before.collections then (.pinnedOnly, config)
    else if server.hasStore && !server.lockAcquired then (.storeBusy, config)
    else
      let found :=
        if seen.isNone && server.hasStore then visibleMeta server.lockedMetas pathToName name ns
        else some seen
      match found with
      | none => (.notFound, config)
      | some found => removeLocked resolve server config resolved found

/-! ### Lookups -/

variable {setup} {resolve} {before config after : SearchConfig R} {name ns : String} {path : Path}
  {server : Surroundings}

omit [DecidableEq R] in
theorem mem_paths : path ∈ config.paths resolve ↔
    ∃ p ∈ config.collections ++ config.pinnedCollections, resolve p = path := by
  rw [SearchConfig.paths, mem_map]
  simp [or_comm]

/-- A name that the routes know is that of a configured path. -/
theorem of_get_allCollectionPaths
    (h : Dict.get (allCollectionPaths setup resolve config) name = some path) :
    path ∈ config.paths resolve ∧ pathToCollectionName setup path = name := by
  obtain ⟨p, hp, heq⟩ := mem_map.mp (Keyed.mem_of_mem_ofList (Dict.get_eq_some_iff.mp h))
  cases heq
  exact ⟨mem_paths.mpr ⟨p, mem_eraseDups.mp hp, rfl⟩, rfl⟩

variable (setup) in
/-- Every configured path has its name in the map of the routes, for itself or for another. -/
theorem exists_get_allCollectionPaths (h : path ∈ config.paths resolve) :
    ∃ path', Dict.get (allCollectionPaths setup resolve config)
      (pathToCollectionName setup path) = some path' := by
  obtain ⟨p, hp, rfl⟩ := mem_paths.mp h
  have hk : pathToCollectionName setup (resolve p) ∈
      (allCollectionPaths setup resolve config).items.map Prod.fst := by
    refine Keyed.mem_keys_foldl_insert.mpr (Or.inr ?_)
    rw [map_map]
    exact mem_map.mpr ⟨p, mem_eraseDups.mpr hp, rfl⟩
  obtain ⟨⟨_, path'⟩, hm, rfl⟩ := mem_map.mp hk
  exact ⟨path', Dict.get_eq_some_iff.mpr hm⟩

/-- Where no two paths end alike, a path is found under its name. -/
theorem get_allCollectionPaths_iff (hdis : DistinctNames setup (config.paths resolve)) :
    Dict.get (allCollectionPaths setup resolve config) name = some path ↔
      path ∈ config.paths resolve ∧ pathToCollectionName setup path = name := by
  refine ⟨of_get_allCollectionPaths, ?_⟩
  rintro ⟨hp, rfl⟩
  obtain ⟨path', hg⟩ := exists_get_allCollectionPaths setup hp
  obtain ⟨hp', hnm⟩ := of_get_allCollectionPaths hg
  rw [hg, hdis path' hp' path hp hnm]

omit [DecidableEq R] in
theorem get_desired_iff (hdis : DistinctNames setup (config.paths resolve)) :
    Dict.get (desired setup resolve config) name = some path ↔
      path ∈ config.paths resolve ∧ pathToCollectionName setup path = name := by
  rw [Dict.get_eq_some_iff, desired, Keyed.mem_def, items_buildDesired hdis, mem_map]
  constructor
  · rintro ⟨q, hq, heq⟩
    cases heq
    exact ⟨mem_eraseDups.mp hq, rfl⟩
  · rintro ⟨hp, rfl⟩
    exact ⟨path, mem_eraseDups.mpr hp, rfl⟩

/-! ### The config that a request leaves -/

variable {resolved : Option Path}

variable (resolve) in
omit [DecidableEq R] in
theorem mem_paths_dropPathFromConfig :
    path ∈ (dropPathFromConfig resolve config resolved).paths resolve ↔
      path ∈ config.paths resolve ∧ some path ≠ resolved := by
  simp only [mem_paths, dropPathFromConfig, split, mem_append, mem_filter,
    decide_eq_true_eq]
  constructor
  · rintro ⟨p, hp, rfl⟩
    exact ⟨⟨p, hp.imp And.left And.left, rfl⟩, hp.elim And.right And.right⟩
  · rintro ⟨⟨p, hp, rfl⟩, hne⟩
    exact ⟨p, hp.imp (⟨·, hne⟩) (⟨·, hne⟩), rfl⟩

omit [DecidableEq R] in
theorem removeLocked_deleted {metaRow : Option MetaRow}
    (h : removeLocked resolve server config resolved metaRow = (.deleted, after)) :
    after = dropPathFromConfig resolve config resolved := by
  unfold removeLocked at h
  split at h
  · cases h
  split at h
  · cases h
  split at h
  · cases h
  cases metaRow with
  | none => exact (Prod.mk.inj h).2.symm
  | some row =>
    dsimp only at h
    split at h
    · cases h
    split at h
    · cases h
    exact (Prod.mk.inj h).2.symm

/-- A request that is answered with success has removed the path that it has found. -/
theorem config_of_deleted
    (h : removeCollection setup resolve server before config name ns = (.deleted, after)) :
    after = dropPathFromConfig resolve config
      (Dict.get (allCollectionPaths setup resolve before) name) := by
  unfold removeCollection at h
  dsimp only at h
  split at h
  · cases h
  split at h
  · cases h
  split at h
  · cases h
  split at h
  · cases h
  exact removeLocked_deleted h

/-! ### Agreement -/

/-- **Where no two paths end alike, routes and syncs agree**, and a `DELETE` that succeeds takes
the path from the config that the next sync would create the collection from, and no other. -/
theorem agree_of_distinct
    (hdistinct : DistinctNames setup (before.paths resolve ++ config.paths resolve)) :
    (∀ name, Dict.get (allCollectionPaths setup resolve config) name =
      Dict.get (desired setup resolve config) name) ∧
    ∀ server name ns after path,
      removeCollection setup resolve server before config name ns = (.deleted, after) →
      Dict.get (desired setup resolve before) name = some path →
        path ∉ after.paths resolve ∧ Dict.get (desired setup resolve after) name = none ∧
        ∀ other, other ≠ name → Dict.get (desired setup resolve after) other =
          Dict.get (desired setup resolve config) other := by
  have hbef : DistinctNames setup (before.paths resolve) := fun p hp q hq =>
    hdistinct p (mem_append_left _ hp) q (mem_append_left _ hq)
  have hconf : DistinctNames setup (config.paths resolve) := fun p hp q hq =>
    hdistinct p (mem_append_right _ hp) q (mem_append_right _ hq)
  constructor
  · intro name
    ext path
    rw [get_allCollectionPaths_iff hconf, get_desired_iff hconf]
  intro server name ns after path h hpa
  obtain ⟨hm, hnm⟩ := (get_desired_iff hbef).mp hpa
  have haft := config_of_deleted h
  rw [(get_allCollectionPaths_iff hbef).mpr ⟨hm, hnm⟩] at haft
  have hk {q : Path} : q ∈ after.paths resolve ↔ q ∈ config.paths resolve ∧ q ≠ path := by
    rw [haft, mem_paths_dropPathFromConfig]
    exact and_congr_right fun _ => (Option.some_injective _).ne_iff
  have hdis' : DistinctNames setup (after.paths resolve) := fun p hp q hq =>
    hconf p (hk.mp hp).1 q (hk.mp hq).1
  refine ⟨fun hstill => (hk.mp hstill).2 rfl, ?_, fun other hoth => ?_⟩
  · refine Option.eq_none_iff_forall_ne_some.mpr fun q hq => ?_
    obtain ⟨hstill, heq⟩ := (get_desired_iff hdis').mp hq
    refine (hk.mp hstill).2 ?_
    exact hdistinct q (mem_append_right _ (hk.mp hstill).1) path
      (mem_append_left _ hm) (heq.trans hnm.symm)
  · ext q
    rw [get_desired_iff hdis', get_desired_iff hconf, hk]
    constructor
    · rintro ⟨⟨hq, -⟩, hnm'⟩
      exact ⟨hq, hnm'⟩
    · rintro ⟨hq, hnm'⟩
      refine ⟨⟨hq, ?_⟩, hnm'⟩
      rintro rfl
      exact hoth (hnm'.symm.trans hnm)

/-! ### Two paths that end alike -/

def sampleSetup : Setup Unit Unit where
  chunks _ _ := []
  denied _ _ := false
  lower name := name
  sha1 _ := "0123ab"
  pinnedCollections := []
  maxDiscoveredFiles := 10
  chunkSize := 512
  autoReindexOnChunkSizeChange := false

def apart : SearchConfig Path := ⟨[["srv", "notes"], ["srv", "docs"]], [["srv", "docs"]]⟩

def alike : SearchConfig Path := ⟨[["a", "docs"], ["b", "docs"]], []⟩

def calm (name : String) : Surroundings where
  metas := [⟨name, some defaultNamespace⟩]
  lockedMetas := [⟨name, some defaultNamespace⟩]

instance (config : List Path) : Decidable (DistinctNames sampleSetup config) :=
  inferInstanceAs (Decidable (∀ p ∈ config, ∀ q ∈ config, _ → _))

/-- The pinned directory is removed from both lists. -/
theorem agree_of_distinct_apart :
    (∀ name, Dict.get (allCollectionPaths sampleSetup id apart) name =
      Dict.get (desired sampleSetup id apart) name) ∧
    ∃ after, removeCollection sampleSetup id (calm "docs") apart apart "docs" defaultNamespace =
        (.deleted, after) ∧
      ["srv", "docs"] ∉ after.paths id ∧ Dict.get (desired sampleSetup id after) "docs" = none := by
  have hdis : DistinctNames sampleSetup (apart.paths id ++ apart.paths id) := by
    decide +kernel
  have hdel : removeCollection sampleSetup id (calm "docs") apart apart "docs"
      defaultNamespace = (.deleted, ⟨[["srv", "notes"]], []⟩) := by
    decide +kernel
  have hind : Dict.get (desired sampleSetup id apart) "docs" = some ["srv", "docs"] := by
    decide +kernel
  obtain ⟨hagr, hrem⟩ := agree_of_distinct hdis
  obtain ⟨hgone, hn, -⟩ := hrem _ _ _ _ _ hdel hind
  exact ⟨hagr, _, hdel, hgone, hn⟩

/-- **The maps differ** where two directories end alike, and a collection that was deleted under
its name is created again. -/
theorem names_differ :
    (¬ ∀ (config : SearchConfig Path) (name : String),
      Dict.get (allCollectionPaths sampleSetup id config) name =
        Dict.get (desired sampleSetup id config) name) ∧
    ¬ ∀ (config after : SearchConfig Path) (server : Surroundings) (name ns : String) (path : Path),
      removeCollection sampleSetup id server config config name ns = (.deleted, after) →
      Dict.get (desired sampleSetup id config) name = some path →
        Dict.get (desired sampleSetup id after) name = none := by
  have hind : Dict.get (desired sampleSetup id alike) "a_docs" = some ["a", "docs"] := by
    decide +kernel
  have hunk : Dict.get (allCollectionPaths sampleSetup id alike) "a_docs" = none := by
    decide +kernel
  have hdel : removeCollection sampleSetup id (calm "a_docs") alike alike "a_docs"
      defaultNamespace = (.deleted, alike) := by
    decide +kernel
  constructor
  · intro h
    have heq := h alike "a_docs"
    cases heq
  · intro h
    have hn := h alike alike _ _ _ _ hdel hind
    cases hn

end ArchonSearch.Collections.Names
