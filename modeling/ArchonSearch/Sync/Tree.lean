import Mathlib.Data.List.DropRight
import Mathlib.Data.List.Sort
import Mathlib.Data.String.Basic
import ArchonSearch.Lib.Keyed

/-!
# Paths, collection names and the two walks

A configured path is a directory; its collection is named after it. The names are made distinct by
taking in more components of the path, and in the end a hash of it (`buildDesired`); where the last
components are distinct to begin with they are the names (`name_of_mem_buildDesired`).

The files of a directory are listed by two walks. The sync lists those that it regards as eligible
(`isEligible`), a directory ingest those that it indexes (`isDiscovered`), which are fewer: it does
not open the directories of packages, and passes over sidecars and over locations that are denied.

Paths are absolute and resolved, and written as their components. Of the file system there
are the regular files; symbolic links are passed over by both walks.
-/

namespace ArchonSearch.Sync

open Lib List

abbrev Path := List String

instance : LawfulBEq Path := inferInstance

abbrev Name := String

structure File (γ τ : Type) where
  content : γ
  /-- `st_mtime`. -/
  mtime : τ

/-- What a sync is made with. The chunker, the policy for paths, `str.lower` and the digest
are collaborators. -/
structure Setup (γ χ : Type) where
  chunks : Path → γ → List χ
  /-- `check_secrets` raises. -/
  denied : Path → γ → Bool
  /-- `str.lower`. -/
  lower : String → String
  sha1 : Path → String
  /-- `_pinned_collections`, resolved. -/
  pinnedCollections : List Path
  (maxDiscoveredFiles chunkSize : ℕ)
  autoReindexOnChunkSizeChange : Bool

variable {γ τ χ : Type} (setup : Setup γ χ)

/-! ### Names -/

/-- `[a-z0-9]`. -/
def isNameChar (c : Char) : Bool := ('a' ≤ c && c ≤ 'z') || ('0' ≤ c && c ≤ '9')

/-- `re.sub(r"[^a-z0-9]+", "_", ...)`; `inRun` says that the run has its `_` already. -/
def replaceRuns (inRun : Bool) : List Char → List Char
  | [] => []
  | c :: cs =>
    if isNameChar c then c :: replaceRuns false cs
    else if inRun then replaceRuns true cs
    else '_' :: replaceRuns true cs

/-- `_sanitize`. -/
def sanitize (raw : String) : String :=
  let chars := replaceRuns false (setup.lower raw).toList
  let stripped := (chars.dropWhile (· = '_')).rdropWhile (· = '_')
  if stripped = [] then "collection" else String.ofList stripped

/-- `Path.name`. -/
def baseName (p : Path) : String := p.getLast?.getD ""

/-- `path_to_collection_name`. -/
def pathToCollectionName (p : Path) : Name := sanitize setup (baseName p)

/-- `Path.parts`: the root is a part of its own. -/
def parts (p : Path) : List String := "/" :: p

/-- `_name_at_depth`. -/
def nameAtDepth (p : Path) (depth : ℕ) : Name :=
  sanitize setup ("_".intercalate ((parts p).drop ((parts p).length - depth)))

/-- One pass over the names: the two sides of a collision take in one component more. -/
def deepen (paths : List Path) (depth : ℕ) (names : List Name) : List Name :=
  let deeper (names : List Name) (i : ℕ) :=
    names.set i (nameAtDepth setup ((paths[i]?).getD []) (depth + 1))
  let visit (acc : List Name × List (Name × ℕ)) (entry : Name × ℕ) :=
    match acc.2.lookup entry.1 with
    | some previous => (deeper (deeper acc.1 entry.2) previous, acc.2)
    | none => (acc.1, entry :: acc.2)
  (names.zipIdx.foldl visit (names, [])).1

def hashNames (paths : List Path) (names : List Name) : List Name :=
  (names.zip paths).map fun (name, p) =>
    if 1 < names.count name then pathToCollectionName setup p ++ "_" ++ setup.sha1 p else name

/-- The loop of `build_desired`; `fuel` are the depths that are left. -/
def resolveNames (paths : List Path) : (fuel depth : ℕ) → List Name → List Name
  | 0, _, names => hashNames setup paths names
  | fuel + 1, depth, names =>
    if names.Nodup then names
    else resolveNames paths fuel (depth + 1) (deepen setup paths depth names)

/-- `build_desired`. -/
def buildDesired (collections : List Path) : Dict Name Path :=
  let paths := collections.eraseDups
  let maxDepth := ((paths.map fun p => (parts p).length).max?).getD 1
  let names := resolveNames setup paths maxDepth 1 (paths.map (pathToCollectionName setup))
  Keyed.ofList (names.zip paths)

/-- `_all_collection_paths`, which knows of no collisions: the last path of a name. -/
def allCollectionPaths (config : List Path) : Dict Name Path :=
  Keyed.ofList (config.eraseDups.map fun p => (pathToCollectionName setup p, p))

/-! ### The walks -/

/-- `_BINARY_EXTENSIONS`. -/
def binaryExtensions : List String :=
  [".pyc", ".pyo", ".so", ".dll", ".exe", ".bin", ".o", ".a", ".lib", ".whl", ".egg", ".class",
    ".ico", ".mp3", ".mp4", ".wav", ".avi", ".mov", ".mkv", ".zip", ".tar", ".gz", ".bz2", ".7z",
    ".rar", ".db", ".sqlite", ".pkl", ".npy", ".npz", ".h5", ".hdf5", ".parquet", ".feather",
    ".wasm", ".dat", ".lance"]

/-- `_PRUNED_DIRECTORY_NAMES`. -/
def prunedDirectoryNames : List String := ["node_modules", "__pycache__", "venv", "site-packages"]

/-- `Path.suffix`: from the last dot on, if it is neither the first character nor the last. -/
def suffix (p : Path) : String :=
  let name := (baseName p).toList
  let extension := (name.reverse.takeWhile (· ≠ '.')).reverse
  if extension = [] ∨ name.length ≤ extension.length + 1 then ""
  else String.ofList ('.' :: extension)

/-- The name of the file ends in `.acl`. -/
def isSidecar (p : Path) : Bool := ".acl".toList.isSuffixOf (baseName p).toList

def relativeTo (root p : Path) : List String := p.drop root.length

/-- `_iter_eligible_files`, for one file. -/
def isEligible (root p : Path) : Bool :=
  root.isPrefixOf p && relativeTo root p ≠ [] &&
    (relativeTo root p).all (fun part => part.toList.head? ≠ some '.') &&
    !binaryExtensions.contains (setup.lower (suffix p))

/-- `_discover_ingest_files`, for one file. -/
def isDiscovered (root p : Path) (content : γ) : Bool :=
  isEligible setup root p && !isSidecar p && !setup.denied p content &&
    (relativeTo root p).dropLast.all fun part => !prunedDirectoryNames.contains part

def sortedFiles (files : Dict Path (File γ τ)) (test : Path → File γ τ → Bool) : List Path :=
  ((files.items.filter fun entry => test entry.1 entry.2).map Prod.fst).insertionSort (· ≤ ·)

/-- `_iter_eligible_files`. -/
def iterEligibleFiles (files : Dict Path (File γ τ)) (root : Path) : List Path :=
  sortedFiles files fun p _ => isEligible setup root p

/-- `_discover_ingest_files`, without its limit. -/
def discoverIngestFiles (files : Dict Path (File γ τ)) (root : Path) : List Path :=
  sortedFiles files fun p file => isDiscovered setup root p file.content

/-- The chunks of the present content of a file: none if there is no such file, and none of
a sidecar. -/
def chunksOf (files : Dict Path (File γ τ)) (p : Path) : List χ :=
  match Dict.get files p with
  | some file => if isSidecar p then [] else setup.chunks p file.content
  | none => []

/-! ### What is listed -/

variable {setup} {files : Dict Path (File γ τ)} {root p : Path}

theorem mem_sortedFiles {test : Path → File γ τ → Bool} :
    p ∈ sortedFiles files test ↔ ∃ file, Dict.get files p = some file ∧ test p file = true := by
  rw [sortedFiles, mem_insertionSort, mem_map]
  constructor
  · rintro ⟨⟨q, file⟩, hm, rfl⟩
    obtain ⟨hm, htest⟩ := mem_filter.mp hm
    exact ⟨file, Dict.get_eq_some_iff.mpr hm, htest⟩
  · rintro ⟨file, hg, htest⟩
    exact ⟨(p, file), mem_filter.mpr ⟨Dict.get_eq_some_iff.mp hg, htest⟩, rfl⟩

theorem nodup_sortedFiles (test : Path → File γ τ → Bool) : (sortedFiles files test).Nodup := by
  rw [sortedFiles, (perm_insertionSort (· ≤ ·) _).nodup_iff]
  exact files.nodup.sublist (filter_sublist.map Prod.fst)

theorem mem_iterEligibleFiles :
    p ∈ iterEligibleFiles setup files root ↔
      ∃ file, Dict.get files p = some file ∧ isEligible setup root p = true := mem_sortedFiles

/-- An ingest of a directory lists eligible files only. -/
theorem mem_iterEligibleFiles_of_discovered (h : p ∈ discoverIngestFiles setup files root) :
    p ∈ iterEligibleFiles setup files root := by
  obtain ⟨file, hg, htest⟩ := mem_sortedFiles.mp h
  refine mem_iterEligibleFiles.mpr ⟨file, hg, ?_⟩
  simp only [isDiscovered, Bool.and_eq_true] at htest
  exact htest.1.1.1

/-! ### What is desired -/

theorem nodup_eraseDups {α : Type*} [BEq α] [LawfulBEq α] :
    ∀ {n : ℕ} {l : List α}, l.length = n → l.eraseDups.Nodup := by
  intro n
  induction n using Nat.strong_induction_on with
  | _ n ih =>
    rintro (_ | ⟨a, l⟩) rfl
    · exact nodup_nil
    rw [eraseDups_cons]
    have hlt : (l.filter fun b => !b == a).length < (a :: l).length :=
      Nat.lt_succ_of_le (length_filter_le _ l)
    refine nodup_cons.mpr ⟨fun hm => ?_, ih _ hlt rfl⟩
    have hne := (mem_filter.mp (mem_eraseDups.mp hm)).2
    simp at hne

variable {collections : List Path} {name : Name}

/-- A collection that is desired has a configured path. -/
theorem mem_of_mem_buildDesired
    (h : (name, p) ∈ buildDesired setup collections) : p ∈ collections :=
  mem_eraseDups.mp (of_mem_zip (Keyed.mem_of_mem_ofList h)).2

/-- Different paths have different names. -/
def DistinctNames (setup : Setup γ χ) (config : List Path) : Prop :=
  ∀ p ∈ config, ∀ q ∈ config, pathToCollectionName setup p = pathToCollectionName setup q → p = q

/-- Without a collision the last components are the names. -/
theorem items_buildDesired (hdis : DistinctNames setup collections) :
    (buildDesired setup collections).items =
      collections.eraseDups.map fun p => (pathToCollectionName setup p, p) := by
  have hnd : (collections.eraseDups.map (pathToCollectionName setup)).Nodup := by
    refine List.Nodup.map_on (fun a ha b hb => ?_) (nodup_eraseDups rfl)
    exact hdis a (mem_eraseDups.mp ha) b (mem_eraseDups.mp hb)
  have hzip (l : List Path) : (l.map (pathToCollectionName setup)).zip l =
      l.map fun p => (pathToCollectionName setup p, p) := by
    refine Eq.trans ?_ (zip_map' (f := pathToCollectionName setup) (g := id) (l := l))
    rw [map_id]
  -- a path has a part, so that the loop is left where it is entered, and there is a depth
  have hnms (fuel : ℕ) : 0 < fuel → resolveNames setup collections.eraseDups fuel 1
      (collections.eraseDups.map (pathToCollectionName setup)) =
        collections.eraseDups.map (pathToCollectionName setup) := by
    intro hpos
    obtain ⟨fuel, rfl⟩ := Nat.exists_eq_succ_of_ne_zero hpos.ne'
    rw [Nat.succ_eq_add_one, resolveNames, if_pos hnd]
  unfold buildDesired
  dsimp only
  rw [hnms, hzip]
  · refine Keyed.items_ofList ?_
    rw [map_map]
    exact hnd
  · cases hpat : collections.eraseDups with
    | nil => exact Nat.one_pos
    | cons p paths =>
      exact lt_of_lt_of_le (Nat.succ_pos p.length)
        (le_max?_getD_of_mem (mem_map_of_mem mem_cons_self))

/-- Without a collision a collection has the name of its last component. -/
theorem name_of_mem_buildDesired
    (h : (name, p) ∈ buildDesired setup collections)
    (hdis : DistinctNames setup collections) : name = pathToCollectionName setup p := by
  rw [Keyed.mem_def, items_buildDesired hdis, mem_map] at h
  obtain ⟨q, -, heq⟩ := h
  cases heq
  rfl

end ArchonSearch.Sync
