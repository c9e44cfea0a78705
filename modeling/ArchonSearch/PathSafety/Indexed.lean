import ArchonSearch.PathSafety.Policy
import ArchonSearch.Sync.Walks

/-!
# What a client gets indexed

A client names a path: to `POST /ingest`, or to one of the tools for a file and for a directory. The
path is validated once and resolved, and from then on files are read at and below what it has been
resolved to. A directory is walked, every file of it is tested, and each is tested again before it
is parsed, with its own name and its own inode.

The walk is that of `ArchonSearch.Sync.discoverFiles`, over the tree that stands at the accepted
place. No symbolic link is followed below it, so what is read is a regular file at its own resolved
path. The check for credentials and denied locations is made of the file itself; that it lies in
the scope of the client follows from where the walk began. So everything that is indexed stays
inside the policy, whatever links there are (`Serving.indexed_staysInside`).
-/

namespace ArchonSearch.PathSafety

open Lib FileSystem Py List Option

/-! ### The tree at a place -/

/-- An entry of a directory, as a walk finds it, before the others: a link to a directory is told
from the other links, and what cannot be looked up is no file. -/
def entryAt (fs : FileSystem) (below : Place → Sync.Entries (Option (List UInt8)) Unit)
    (here : Place) (name : String) (rest : Sync.Entries (Option (List UInt8)) Unit) :
    Sync.Entries (Option (List UInt8)) Unit :=
  match fs.node (here ++ [name]) with
  | some (.file _ _ content) => .file name ⟨content, ()⟩ rest
  | some (.directory _ _) => .directory name (below (here ++ [name])) rest
  | some (.symlink _) => .symlink name (fs.isDir (pathTo (here ++ [name]))) rest
  | some (.other _) | none => .other name rest

def entriesAt (fs : FileSystem) : ℕ → Place → Sync.Entries (Option (List UInt8)) Unit
  | 0, _ => .nil
  | depth + 1, here =>
    match fs.node here with
    | some (.directory _ (some names)) =>
      names.foldr (entryAt fs (entriesAt fs depth) here) .nil
    | _ => .nil

section Entries

variable {fs : FileSystem} {below : Place → Sync.Entries (Option (List UInt8)) Unit} {here : Place}

theorem names_foldr_entryAt (names : List String) :
    (names.foldr (entryAt fs below here) .nil).names = names := by
  induction names with
  | nil => rfl
  | cons name names ih =>
    rw [foldr_cons, entryAt]
    split <;> exact congrArg (name :: ·) ih

variable {names : List String}

theorem distinct_foldr_entryAt (hbel : ∀ p, (below p).Distinct)
    (hnms : names.Nodup) : (names.foldr (entryAt fs below here) .nil).Distinct := by
  induction names with
  | nil => trivial
  | cons name names ih =>
    obtain ⟨hnm, hnms⟩ := nodup_cons.mp hnms
    have hfr : name ∉ (names.foldr (entryAt fs below here) .nil).names := by
      rwa [names_foldr_entryAt]
    rw [foldr_cons, entryAt]
    split
    next => exact ⟨hfr, ih hnms⟩
    next => exact ⟨hfr, hbel _, ih hnms⟩
    next => exact ⟨hfr, ih hnms⟩
    next => exact ⟨hfr, ih hnms⟩
    next => exact ⟨hfr, ih hnms⟩

theorem distinct_entriesAt (depth : ℕ) (here : Place) : (entriesAt fs depth here).Distinct := by
  induction depth generalizing here with
  | zero => trivial
  | succ depth ih =>
    rw [entriesAt]
    split
    next inode names hdir => exact distinct_foldr_entryAt ih (fs.listed here inode names hdir).1
    next => trivial

variable {entry : Place × Sync.File _ Unit}

theorem node_of_mem_foldr_entryAt
    (hbel : ∀ p, ∀ entry ∈ (below p).files,
      ∃ inode links, fs.node (p ++ entry.1) = some (.file inode links entry.2.content))
    (h : entry ∈ (names.foldr (entryAt fs below here) .nil).files) :
    ∃ inode links, fs.node (here ++ entry.1) = some (.file inode links entry.2.content) := by
  induction names with
  | nil => cases h
  | cons name names ih =>
    rw [foldr_cons, entryAt] at h
    split at h
    next inode links content hf =>
      rcases mem_cons.mp h with rfl | h
      · exact ⟨inode, links, hf⟩
      · exact ih h
    next inode names' hdir =>
      rcases mem_append.mp h with h | h
      · obtain ⟨entry', hent', rfl⟩ := List.mem_map.mp h
        obtain ⟨inode, links, hf⟩ := hbel _ entry' hent'
        refine ⟨inode, links, ?_⟩
        rw [← hf, append_assoc]
        rfl
      · exact ih h
    next => exact ih h
    next => exact ih h
    next => exact ih h

/-- **The files that a walk finds** are regular files, with no link on the way to them. -/
theorem node_of_mem_files {depth : ℕ}
    (h : entry ∈ (entriesAt fs depth here).files) :
    ∃ inode links, fs.node (here ++ entry.1) = some (.file inode links entry.2.content) := by
  induction depth generalizing here entry with
  | zero => cases h
  | succ depth ih =>
    rw [entriesAt] at h
    split at h
    next => exact node_of_mem_foldr_entryAt (fun p entry hent => ih hent) h
    next => cases h

end Entries

/-! ### Requests -/

structure Serving (χ : Type) extends Server where
  setup : Sync.Setup (Option (List UInt8)) χ
  accepts : Place → List UInt8 → Bool

inductive Request where
  /-- `POST /ingest`, and the job that `POST /collections` starts. -/
  | ingest (path : String)
  /-- The tool `ingest_file`. -/
  | ingestFile (path : String)
  /-- The tool `ingest_directory`. -/
  | ingestDirectory (path globPattern : String)

def Request.path : Request → String
  | .ingest path | .ingestFile path | .ingestDirectory path _ => path

namespace Serving

variable {χ : Type} (serving : Serving χ) (fs : FileSystem)

/-- `check_secrets` raises. -/
def isDenied (path : Place) : Bool :=
  match serving.checkSecrets fs (pathTo path) true with
  | .ok () => false
  | .error _ => true

/-- `ingest_file`: the file and what is in it, if its content is indexed. -/
def ingestFile (path : Place) : Option (Place × List UInt8) :=
  if Sync.suffix path = ".acl" || Sync.isSidecar path then none
  else if serving.isDenied fs path then none
  else
    -- `_require_regular_file`: nothing is opened that is not one, and no link is followed
    match fs.lstat (pathTo path) with
    | some (.file _ _ (some content)) =>
      if serving.accepts path content then some (path, content) else none
    | _ => none

/-- The tree that `os.walk` goes through, if the path leads to a directory. -/
def treeAt (root : Place) : Sync.Tree (Option (List UInt8)) Unit where
  entries := (fs.locate (pathTo root)).elim .nil (entriesAt fs fs.limit)
  distinct := by
    cases fs.locate (pathTo root) with
    | none => trivial
    | some here => exact distinct_entriesAt _ _

def walkSetup : Sync.Setup (Option (List UInt8)) χ :=
  { serving.setup with denied := fun path _ => serving.isDenied fs path }

/-- `_DENIED_DIRECTORY_PROBE_NAME`. -/
def deniedDirectoryProbeName : String := "probe"

/-- `_discover_ingest_files`. -/
def discoverIngestFiles (root : Place) (segments : List String) : Except Unit (List Place) :=
  Sync.discoverFiles (serving.walkSetup fs)
    (fun path => serving.isDenied fs (root ++ path ++ [deniedDirectoryProbeName])) root segments
    (treeAt fs root)

/-- `ingest_directory`. -/
def ingestDirectory (root : Place) (segments : List String) : List (Place × List UInt8) :=
  match serving.discoverIngestFiles fs root segments with
  | .error () => []
  | .ok files => files.filterMap (serving.ingestFile fs)

/-- `glob_pattern.split("/")`. -/
def globSegments (globPattern : String) : List String :=
  (globPattern.toList.splitOn '/').map String.ofList

def indexed (admin : Bool) (request : Request) : List (Place × List UInt8) :=
  match serving.validateIngestSource fs request.path admin with
  | .error _ => []
  | .ok accepted =>
    match request with
    | .ingest _ =>
      if fs.isFile (pathTo accepted) then (serving.ingestFile fs accepted).toList
      else if fs.isDir (pathTo accepted) then
        serving.ingestDirectory fs accepted Sync.defaultGlob
      else []
    | .ingestFile _ => (serving.ingestFile fs accepted).toList
    | .ingestDirectory _ globPattern =>
      match Server.validateGlobPattern globPattern with
      | some _ => []
      | none => serving.ingestDirectory fs accepted (globSegments globPattern)

/-! ### What is indexed -/

variable {serving fs} {admin : Bool} {accepted path root : Place} {content : List UInt8}

variable (serving fs admin accepted path content) in
/-- What was read is a file at its own path, below the accepted one and inside the policy. -/
structure StaysInside : Prop where
  file : ∃ inode links, fs.node path = some (.file inode links (some content))
  below : accepted <+: path
  way : ∀ q, accepted <+: q → q <+: path → ∀ target, fs.node q ≠ some (.symlink target)
  resolved : fs.realpath (pathTo path) = some path
  clear : serving.IsClear fs path
  scope : serving.policy.allowedRoots ≠ [] → serving.IsWithin fs path
  permitted : admin = true ∨ serving.policy.allowedRoots ≠ []

variable {entry : Place × List UInt8}

theorem ingestFile_eq_some
    (h : serving.ingestFile fs path = some entry) :
    entry.1 = path ∧ serving.isDenied fs path = false ∧
      ∃ inode links, fs.lstat (pathTo path) = some (.file inode links (some entry.2)) := by
  unfold ingestFile at h
  split_ifs at h with hsid hden
  split at h
  next inode links content hlstat =>
    split_ifs at h
    cases h
    exact ⟨rfl, Bool.eq_false_iff.mpr hden, inode, links, hlstat⟩
  next => cases h

theorem checkSecrets_of_isDenied (h : serving.isDenied fs path = false) :
    serving.checkSecrets fs (pathTo path) true = .ok () := by
  unfold isDenied at h
  split at h
  next hok => exact hok
  next => cases h

variable {raw : String}

/-- **A file at or below an accepted path stays inside**, if it is reached without a link. -/
theorem staysInside_of_ingestFile
    (hacc : serving.validateIngestSource fs raw admin = .ok accepted)
    (hbel : accepted <+: path) (hres : fs.IsResolved path)
    (h : serving.ingestFile fs path = some entry) :
    serving.StaysInside fs admin accepted entry.1 entry.2 := by
  obtain ⟨rfl, hden, inode, links, hlstat⟩ := ingestFile_eq_some h
  have hn := hres.node_of_lstat hlstat
  have hclient := (Server.of_validateIngestSource hacc).2
  obtain ⟨hper, hsc⟩ := Server.of_checkClientPath hclient
  refine ⟨⟨inode, links, hn⟩, hbel, ?_, realpath_of_node hn rfl, ?_, fun hroots => ?_, hper⟩
  · exact fun q _ hpre => not_symlink_of_isPrefix hn rfl hpre
  · exact Server.isClear_of_checkSecrets hn rfl (checkSecrets_of_isDenied hden)
  · by_cases heq : accepted = entry.1
    · exact Server.isWithin_of_checkScope hn rfl hroots (heq ▸ hsc)
    · have hne : fs.node entry.1 ≠ none := by simp [hn]
      obtain ⟨inode, names, hdir⟩ := directory_of_isPrefix hne hbel heq
      exact (Server.isWithin_of_checkScope hdir rfl hroots hsc).of_isPrefix hbel

variable {segments : List String} {files : List Place}

theorem mem_of_discoverFiles {γ τ : Type} {setup : Sync.Setup γ χ} {probed : Place → Bool}
    {t : Sync.Tree γ τ}
    (h : Sync.discoverFiles setup probed root segments t = .ok files) (hp : path ∈ files) :
    ∃ entry ∈ t.entries.files, path = root ++ entry.1 := by
  have hs : (fun (found : List Place) (visit : Place × List (String × Sync.Kind γ τ)) =>
      visit.2.foldlM (Sync.considerEntry setup root segments visit.1) found) =
        fun found visit => visit.2.foldlM (Sync.collect setup.maxDiscoveredFiles
          fun entry => (Sync.onlyFile (visit.1 ++ [entry.1], entry.2)).bind
            (Sync.discoveredPath setup root segments)) found := by
    funext found visit
    rw [Sync.considerEntry_eq]
  rw [Sync.discoverFiles, hs, Sync.foldlM_collect_groups (fun (here : Place)
      (entry : String × Sync.Kind γ τ) => (Sync.onlyFile (here ++ [entry.1], entry.2)).bind
        (Sync.discoveredPath setup root segments)) (Nat.zero_le _), Sync.filterMap_visitedFiles,
    nil_append, Sync.within] at h
  split_ifs at h
  · cases h
    have hfnd := (perm_insertionSort (· ≤ ·) _).mem_iff.mp hp
    obtain ⟨entry, hent, hdis⟩ := mem_filterMap.mp hfnd
    have hk := (Sync.Entries.perm_visitedFiles t.entries []).mem_iff.mp hent
    obtain ⟨entry', hent', rfl⟩ := List.mem_map.mp hk
    refine ⟨entry', mem_of_mem_filter hent', ?_⟩
    unfold Sync.discoveredPath at hdis
    split_ifs at hdis
    exact (some.inj hdis).symm
  · cases h

/-- The files that a walk discovers lie below its root, and no link is on the way. -/
theorem of_discoverIngestFiles
    (hroot : fs.IsResolved root) (h : serving.discoverIngestFiles fs root segments = .ok files)
    (hp : path ∈ files) : root <+: path ∧ fs.IsResolved path := by
  obtain ⟨entry, hent, rfl⟩ := mem_of_discoverFiles h hp
  refine ⟨prefix_append _ _, ?_⟩
  have htree : (treeAt fs root).entries =
      (fs.locate (pathTo root)).elim .nil (entriesAt fs fs.limit) := rfl
  cases hloc : fs.locate (pathTo root) with
  | none =>
    rw [htree, hloc] at hent
    cases hent
  | some here =>
    rw [htree, hloc, hroot.eq_of_locate hloc] at hent
    obtain ⟨inode, links, hn⟩ := node_of_mem_files hent
    exact isResolved_of_node hn rfl

/-- **What a directory comes to** stays inside. -/
theorem staysInside_of_ingestDirectory
    (hacc : serving.validateIngestSource fs raw admin = .ok accepted)
    (h : entry ∈ serving.ingestDirectory fs accepted segments) :
    serving.StaysInside fs admin accepted entry.1 entry.2 := by
  have hres := (Server.of_validateIngestSource hacc).1
  unfold ingestDirectory at h
  split at h
  next => cases h
  next files hfs =>
    obtain ⟨path, hp, hing⟩ := mem_filterMap.mp h
    obtain ⟨hbel, hp⟩ := of_discoverIngestFiles hres hfs hp
    exact staysInside_of_ingestFile hacc hbel hp hing

/-- **Whatever is indexed stays inside the policy**: whatever links there are in the file system,
whatever path a client names, and whatever glob. A client who is no administrator gets nothing
indexed as long as there are no allowed roots. -/
theorem indexed_staysInside (serving : Serving χ) (fs : FileSystem) (admin : Bool)
    (request : Request) :
    (∀ entry ∈ serving.indexed fs admin request,
      ∃ accepted, serving.validateIngestSource fs request.path admin = .ok accepted ∧
        serving.StaysInside fs admin accepted entry.1 entry.2) ∧
      (admin = false → serving.policy.allowedRoots = [] →
        serving.indexed fs admin request = []) := by
  have hins : ∀ entry ∈ serving.indexed fs admin request,
      ∃ accepted, serving.validateIngestSource fs request.path admin = .ok accepted ∧
        serving.StaysInside fs admin accepted entry.1 entry.2 := by
    intro entry hent
    unfold indexed at hent
    split at hent
    next => cases hent
    next accepted hacc =>
      refine ⟨accepted, hacc, ?_⟩
      have hres := (Server.of_validateIngestSource hacc).1
      have hf (h : entry ∈ (serving.ingestFile fs accepted).toList) :
          serving.StaysInside fs admin accepted entry.1 entry.2 :=
        staysInside_of_ingestFile hacc prefix_rfl hres (mem_toList.mp h)
      cases request with
      | ingest path =>
        split_ifs at hent
        · exact hf hent
        · exact staysInside_of_ingestDirectory hacc hent
        · cases hent
      | ingestFile path => exact hf hent
      | ingestDirectory path globPattern =>
        dsimp only at hent
        split at hent
        · cases hent
        · exact staysInside_of_ingestDirectory hacc hent
  refine ⟨hins, fun hadm hroots => eq_nil_iff_forall_not_mem.mpr fun entry hent => ?_⟩
  obtain ⟨accepted, -, hstays⟩ := hins entry hent
  rcases hstays.permitted with hadm' | hroots'
  · rw [hadm] at hadm'
    cases hadm'
  · exact hroots' hroots

end Serving

end ArchonSearch.PathSafety
