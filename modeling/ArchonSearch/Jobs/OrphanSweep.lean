import Mathlib.Data.Finset.Basic
import Mathlib.Data.List.Sort
import Mathlib.Data.String.Basic
import ArchonSearch.Lib.Batches
import ArchonSearch.Lib.Keyed

/-!
# The sweep for orphans

A maintenance pass deletes the chunks of files that are gone. It decides by the path that a chunk
names: a local path whose file is missing is an orphan, unless its chunks say that they were never
read from a file of this host (`shouldDeleteOrphan`). What it deletes is one document, the one
whose id is derived from the path as it resolves now (`deleteBySourcePath`).

So a chunk is removed exactly if some swept path derives its document id
(`mem_runOrphanCleanup_iff`), whatever path it names itself. Where no other orphaned path derives
its id, a chunk that is removed is an orphan, and every orphan under the id of its path is removed
(`orphanSweep_exact`). An orphan under another id stays, and a chunk whose id another path derives
may go with that (`orphanSweep_inexact`).
-/

namespace ArchonSearch.Jobs.OrphanSweep

open Lib List

/-! ### Chunks and their markers -/

structure Chunk where
  docId : String
  /-- `source_path`; the empty text if it is null. -/
  sourcePath : String
  /-- `metadata`, as it is stored. -/
  metadata : String
  deriving DecidableEq

/-- What `json.loads` makes of a text. -/
inductive Loaded where
  /-- `json.JSONDecodeError`. -/
  | invalid
  /-- A value that is no `dict`. -/
  | other
  /-- The items of a `dict`, with `str` of their values. -/
  | dict : List (String × String) → Loaded

structure Host where
  /-- `json.loads`. -/
  loads : String → Loaded
  /-- `Path(source_path).exists()`. -/
  pathExists : String → Except Unit Bool
  /-- `str(Path(source_path).resolve())`. -/
  resolve : String → Except Unit String
  /-- `hashlib.sha256(text.encode()).hexdigest()`. -/
  sha256 : String → String

variable (host : Host)

/-- `parse_metadata`. -/
def parseMetadata (raw : String) : Dict String String :=
  if raw = "" then Keyed.empty
  else
    match host.loads raw with
    | .invalid | .other => Keyed.empty
    | .dict items => Keyed.ofList items

/-- `NOT_DISK_INGESTED_CHUNK_MARKERS`. -/
def notDiskIngestedChunkMarkers : List (String × String) :=
  [("_inline", "true"), ("_imported", "true")]

/-- `_is_not_disk_ingested`. -/
def isNotDiskIngested (chunk : Chunk) : Bool :=
  notDiskIngestedChunkMarkers.any fun marker =>
    Dict.get (parseMetadata host chunk.metadata) marker.1 = some marker.2

/-- `doc_id_for_source_path`. -/
def docIdForSourcePath (sourcePath : String) : Except Unit String :=
  (host.resolve sourcePath).map host.sha256

/-! ### The scan -/

/-- `_SourcePathDocIds`. -/
structure SourcePathDocIds where
  (diskIngested notDiskIngested : Finset String)

def isLocal (sourcePath : String) : Bool :=
  sourcePath ≠ "" && !("http://".toList.isPrefixOf sourcePath.toList) &&
    !("https://".toList.isPrefixOf sourcePath.toList)

def SourcePathDocIds.add (docIds : SourcePathDocIds) (chunk : Chunk) : SourcePathDocIds :=
  if isNotDiskIngested host chunk then
    { docIds with notDiskIngested := insert chunk.docId docIds.notDiskIngested }
  else { docIds with diskIngested := insert chunk.docId docIds.diskIngested }

def addChunk (sourcePaths : Dict String SourcePathDocIds) (chunk : Chunk) :
    Dict String SourcePathDocIds :=
  if isLocal chunk.sourcePath then
    sourcePaths.insert (chunk.sourcePath,
      ((Dict.get sourcePaths chunk.sourcePath).getD ⟨∅, ∅⟩).add host chunk)
  else sourcePaths

/-- `_scan_source_paths`. -/
def scanSourcePaths (chunks : List Chunk) : Dict String SourcePathDocIds :=
  chunks.foldl (addChunk host) Keyed.empty

/-! ### The sweep -/

/-- `_should_delete_orphan`. -/
def shouldDeleteOrphan (sourcePath : String) (docIds : SourcePathDocIds) : Except Unit Bool :=
  if docIds.notDiskIngested = ∅ then .ok true
  else if docIds.diskIngested = ∅ then .ok false
  else do
    let localDocId ← docIdForSourcePath host sourcePath
    pure (localDocId ∈ docIds.diskIngested && localDocId ∉ docIds.notDiskIngested)

inductive Fault where
  | before
  | after

/-- `delete_by_source_path`: the rows that it leaves, and whether it raises. -/
def deleteBySourcePath (faults : String → Option Fault) (sourcePath : String)
    (rows : List Chunk) : List Chunk × Except Unit Unit :=
  match docIdForSourcePath host sourcePath with
  | .error e => (rows, .error e)
  | .ok docId =>
    match faults sourcePath with
    | none => (deleteIn Chunk.docId rows [docId], .ok ())
    | some .before => (rows, .error ())
    | some .after => (deleteIn Chunk.docId rows [docId], .error ())

structure Sweep where
  rows : List Chunk
  orphanCount : ℕ
  deriving DecidableEq

/-- `not Path(sp).exists() and await _should_delete_orphan(sp, source_paths[sp])`. -/
def orphanCheck (entry : String × SourcePathDocIds) : Except Unit Bool := do
  let found ← host.pathExists entry.1
  if found then pure false else shouldDeleteOrphan host entry.1 entry.2

def sweepPath (faults : String → Option Fault) (sweep : Sweep)
    (entry : String × SourcePathDocIds) : Sweep :=
  match orphanCheck host entry with
  | .error _ | .ok false => sweep
  | .ok true =>
    match deleteBySourcePath host faults entry.1 sweep.rows with
    | (rows, .ok ()) => ⟨rows, sweep.orphanCount + 1⟩
    | (rows, .error _) => { sweep with rows := rows }

/-- `_run_orphan_cleanup`, of the chunks of a collection. -/
def runOrphanCleanup (orphanCleanup : Bool) (faults : String → Option Fault)
    (chunks : List Chunk) : Sweep :=
  if orphanCleanup then
    ((scanSourcePaths host chunks).items.insertionSort fun a b => a.1 ≤ b.1).foldl
      (sweepPath host faults) ⟨chunks, 0⟩
  else ⟨chunks, 0⟩

variable {host} {chunks : List Chunk} {faults : String → Option Fault}

/-! ### What the scan knows of a path -/

variable (host) in
def idsOf (chunks : List Chunk) (sourcePath : String) : SourcePathDocIds where
  diskIngested := ((chunks.filter fun c =>
    c.sourcePath = sourcePath && !isNotDiskIngested host c).map Chunk.docId).toFinset
  notDiskIngested := ((chunks.filter fun c =>
    c.sourcePath = sourcePath && isNotDiskIngested host c).map Chunk.docId).toFinset

variable {sourcePath docId : String}

theorem mem_diskIngested :
    docId ∈ (idsOf host chunks sourcePath).diskIngested ↔ ∃ c ∈ chunks,
      c.sourcePath = sourcePath ∧ isNotDiskIngested host c = false ∧ c.docId = docId := by
  simp [idsOf, and_assoc]

theorem mem_notDiskIngested :
    docId ∈ (idsOf host chunks sourcePath).notDiskIngested ↔ ∃ c ∈ chunks,
      c.sourcePath = sourcePath ∧ isNotDiskIngested host c = true ∧ c.docId = docId := by
  simp [idsOf, and_assoc]

theorem idsOf_concat_self (c : Chunk) : idsOf host (chunks ++ [c]) c.sourcePath =
    (idsOf host chunks c.sourcePath).add host c := by
  have hins (l : List String) : (l ++ [c.docId]).toFinset = insert c.docId l.toFinset := by
    ext docId
    rw [mem_toFinset, mem_append, mem_singleton, Finset.mem_insert, mem_toFinset, or_comm]
  unfold SourcePathDocIds.add
  cases hmar : isNotDiskIngested host c <;>
    simp [idsOf, hmar, filter_append, hins]

theorem idsOf_concat_of_ne {c : Chunk} {sourcePath : String} (h : c.sourcePath ≠ sourcePath) :
    idsOf host (chunks ++ [c]) sourcePath = idsOf host chunks sourcePath := by
  simp [idsOf, h, filter_append]

theorem idsOf_of_notMem {sourcePath : String} (h : sourcePath ∉ chunks.map Chunk.sourcePath) :
    idsOf host chunks sourcePath = ⟨∅, ∅⟩ := by
  have hn (q : Chunk → Bool) :
      chunks.filter (fun c => c.sourcePath = sourcePath && q c) = [] := by
    refine filter_eq_nil_iff.mpr fun c hc heq => h ?_
    rw [Bool.and_eq_true, decide_eq_true_eq] at heq
    exact heq.1 ▸ mem_map_of_mem hc
  rw [idsOf, hn, hn]
  rfl

variable (host chunks) in
/-- **The scan** has every local path that some chunk names, with the document ids of its chunks. -/
theorem get_scanSourcePaths (sourcePath : String) :
    Dict.get (scanSourcePaths host chunks) sourcePath =
      if isLocal sourcePath = true ∧ sourcePath ∈ chunks.map Chunk.sourcePath then
        some (idsOf host chunks sourcePath)
      else none := by
  induction chunks using List.reverseRecOn with
  | nil =>
    rw [if_neg fun h => not_mem_nil h.2]
    rfl
  | append_singleton chunks c ih =>
    have hm : sourcePath ∈ (chunks ++ [c]).map Chunk.sourcePath ↔
        sourcePath ∈ chunks.map Chunk.sourcePath ∨ sourcePath = c.sourcePath := by
      rw [map_append, mem_append, map_singleton, mem_singleton]
    rw [scanSourcePaths, foldl_append, foldl_cons, foldl_nil, ← scanSourcePaths, addChunk]
    simp only [hm]
    by_cases heq : sourcePath = c.sourcePath
    · subst heq
      by_cases hloc : isLocal c.sourcePath = true
      · have hids : (Dict.get (scanSourcePaths host chunks) c.sourcePath).getD ⟨∅, ∅⟩ =
            idsOf host chunks c.sourcePath := by
          rw [ih]
          split_ifs with hold
          · rfl
          · exact (idsOf_of_notMem fun h => hold ⟨hloc, h⟩).symm
        rw [if_pos hloc, Dict.get_insert_self, if_pos ⟨hloc, Or.inr rfl⟩, idsOf_concat_self, hids]
      · rw [if_neg hloc, ih, if_neg fun h => hloc h.1, if_neg fun h => hloc h.1]
    · have hoth : Dict.get (if isLocal c.sourcePath then
          (scanSourcePaths host chunks).insert (c.sourcePath,
            ((Dict.get (scanSourcePaths host chunks) c.sourcePath).getD ⟨∅, ∅⟩).add host c)
          else scanSourcePaths host chunks) sourcePath =
            Dict.get (scanSourcePaths host chunks) sourcePath := by
        split
        · exact Dict.get_insert_of_ne _ heq _
        · rfl
      rw [hoth, ih, idsOf_concat_of_ne (Ne.symm heq)]
      simp only [heq, or_false]

variable {entry : String × SourcePathDocIds}

theorem mem_scanSourcePaths :
    entry ∈ (scanSourcePaths host chunks).items ↔ isLocal entry.1 = true ∧
      entry.1 ∈ chunks.map Chunk.sourcePath ∧ entry.2 = idsOf host chunks entry.1 := by
  have hg := get_scanSourcePaths host chunks entry.1
  have hm : entry ∈ (scanSourcePaths host chunks).items ↔
      Dict.get (scanSourcePaths host chunks) entry.1 = some entry.2 := Dict.get_eq_some_iff.symm
  rw [hm, hg]
  split
  · next h => simp [h, eq_comm]
  · next h =>
    refine ⟨fun hn => (by cases hn), fun hall => absurd ⟨hall.1, hall.2.1⟩ h⟩

/-! ### What the sweep removes -/

def hit (host : Host) (faults : String → Option Fault) (entry : String × SourcePathDocIds) :
    List String :=
  match orphanCheck host entry, docIdForSourcePath host entry.1, faults entry.1 with
  | .ok true, .ok docId, none => [docId]
  | .ok true, .ok docId, some .after => [docId]
  | _, _, _ => []

theorem mem_hit {docId : String} :
    docId ∈ hit host faults entry ↔ orphanCheck host entry = .ok true ∧
      docIdForSourcePath host entry.1 = .ok docId ∧ faults entry.1 ≠ some .before := by
  unfold hit
  split
  · next hcheck hid hfault => simp [hcheck, hid, hfault, eq_comm]
  · next hcheck hid hfault => simp [hcheck, hid, hfault, eq_comm]
  · next hn haft =>
    refine ⟨fun h => absurd h not_mem_nil, fun ⟨hcheck, hid, hfault⟩ => ?_⟩
    rcases hf : faults entry.1 with _ | _ | _
    · exact (hn docId hcheck hid hf).elim
    · exact absurd hf hfault
    · exact (haft docId hcheck hid hf).elim

/-- **One path** removes what it hits. -/
theorem rows_sweepPath (sweep : Sweep) (entry : String × SourcePathDocIds) :
    (sweepPath host faults sweep entry).rows =
      deleteIn Chunk.docId sweep.rows (hit host faults entry) := by
  have hkeep : deleteIn Chunk.docId sweep.rows [] = sweep.rows :=
    filter_eq_self.mpr fun _ _ => rfl
  unfold sweepPath hit deleteBySourcePath
  rcases orphanCheck host entry with _ | _ | _
  · exact hkeep.symm
  · exact hkeep.symm
  · rcases docIdForSourcePath host entry.1 with _ | docId
    · exact hkeep.symm
    · rcases faults entry.1 with _ | _ | _
      · rfl
      · exact hkeep.symm
      · rfl

/-- **The sweep** removes what its paths hit. -/
theorem rows_foldl_sweepPath (entries : List (String × SourcePathDocIds)) (sweep : Sweep) :
    (entries.foldl (sweepPath host faults) sweep).rows =
      (entries.map (hit host faults)).foldl (deleteIn Chunk.docId) sweep.rows := by
  induction entries generalizing sweep with
  | nil => rfl
  | cons entry entries ih =>
    rw [foldl_cons, ih, rows_sweepPath, map_cons, foldl_cons]

def Hits (host : Host) (faults : String → Option Fault) (chunks : List Chunk)
    (sourcePath docId : String) : Prop :=
  isLocal sourcePath = true ∧ sourcePath ∈ chunks.map Chunk.sourcePath ∧
    orphanCheck host (sourcePath, idsOf host chunks sourcePath) = .ok true ∧
    docIdForSourcePath host sourcePath = .ok docId ∧ faults sourcePath ≠ some .before

variable (host faults chunks) in
/-- **A chunk is removed exactly if a path hits its document.** -/
theorem mem_runOrphanCleanup_iff {c : Chunk} :
    c ∈ (runOrphanCleanup host true faults chunks).rows ↔
      c ∈ chunks ∧ ∀ sourcePath, ¬Hits host faults chunks sourcePath c.docId := by
  unfold runOrphanCleanup
  rw [if_pos rfl, rows_foldl_sweepPath, foldl_deleteIn, mem_filter]
  refine and_congr_right fun _ => ?_
  simp only [Bool.not_eq_true', any_eq_false, mem_map, mem_insertionSort, contains_iff_mem]
  constructor
  · rintro h sourcePath ⟨hloc, hm, hcheck, hid, hfault⟩
    refine h _ ⟨(sourcePath, idsOf host chunks sourcePath), ?_, rfl⟩
      (mem_hit.mpr ⟨hcheck, hid, hfault⟩)
    exact mem_scanSourcePaths.mpr ⟨hloc, hm, rfl⟩
  · rintro h docIds ⟨entry, hent, rfl⟩ hhit
    obtain ⟨hloc, hm, hids⟩ := mem_scanSourcePaths.mp hent
    obtain ⟨hcheck, hid, hfault⟩ := mem_hit.mp hhit
    refine h entry.1 ⟨hloc, hm, ?_, hid, hfault⟩
    rw [← hids]
    exact hcheck

/-! ### Orphans -/

variable {docIds : SourcePathDocIds}

theorem missing_of_orphanCheck {sourcePath : String}
    (h : orphanCheck host (sourcePath, docIds) = .ok true) :
    host.pathExists sourcePath = .ok false ∧
      shouldDeleteOrphan host sourcePath docIds = .ok true := by
  unfold orphanCheck at h
  rcases hexis : host.pathExists sourcePath with e | _ | _
  · rw [hexis] at h
    cases h
  · rw [hexis] at h
    exact ⟨rfl, h⟩
  · rw [hexis] at h
    cases h

/-- The document that is deleted has no chunk at the path that is marked. -/
theorem notMem_of_shouldDeleteOrphan
    (h : shouldDeleteOrphan host sourcePath docIds = .ok true)
    (hid : docIdForSourcePath host sourcePath = .ok docId) : docId ∉ docIds.notDiskIngested := by
  unfold shouldDeleteOrphan at h
  split_ifs at h with hunm hmar
  · simp [hunm]
  · cases h
  · rw [hid] at h
    have hboth := Except.ok.inj h
    rw [Bool.and_eq_true, decide_eq_true_eq, decide_eq_true_eq] at hboth
    exact hboth.2

/-- An orphan under the id of its path, with no marked chunk of its document, is to be deleted. -/
theorem shouldDeleteOrphan_of_mem
    (hid : docIdForSourcePath host sourcePath = .ok docId) (hdisk : docId ∈ docIds.diskIngested)
    (hnot : docId ∉ docIds.notDiskIngested) :
    shouldDeleteOrphan host sourcePath docIds = .ok true := by
  unfold shouldDeleteOrphan
  split_ifs with hunm hmar
  · rfl
  · rw [hmar] at hdisk
    exact absurd hdisk (Finset.notMem_empty docId)
  · rw [hid]
    change Except.ok (decide (docId ∈ docIds.diskIngested) &&
      decide (docId ∉ docIds.notDiskIngested)) = .ok true
    rw [decide_eq_true hdisk, decide_eq_true hnot]
    rfl

/-- A chunk of a file that is gone, under the id of its path, which was read from that file. -/
structure IsOrphan (host : Host) (c : Chunk) : Prop where
  unmarked : isNotDiskIngested host c = false
  isLocal : isLocal c.sourcePath = true
  missing : host.pathExists c.sourcePath = .ok false
  docId_eq : docIdForSourcePath host c.sourcePath = .ok c.docId

/-- No other path of an unmarked chunk whose file is missing derives the document id of a chunk. -/
def DerivedByOwn (host : Host) (chunks : List Chunk) (c : Chunk) : Prop :=
  ∀ other ∈ chunks, isNotDiskIngested host other = false →
    OrphanSweep.isLocal other.sourcePath = true → host.pathExists other.sourcePath = .ok false →
    docIdForSourcePath host other.sourcePath = .ok c.docId → other.sourcePath = c.sourcePath

/-- A path of which a document is to be deleted has an unmarked chunk. -/
theorem exists_unmarked_of_shouldDeleteOrphan {sourcePath : String}
    (hm : sourcePath ∈ chunks.map Chunk.sourcePath)
    (h : shouldDeleteOrphan host sourcePath (idsOf host chunks sourcePath) = .ok true) :
    ∃ other ∈ chunks, other.sourcePath = sourcePath ∧ isNotDiskIngested host other = false := by
  unfold shouldDeleteOrphan at h
  split_ifs at h with hunm hmar
  · obtain ⟨other, hoth, hp⟩ := mem_map.mp hm
    refine ⟨other, hoth, hp, Bool.eq_false_iff.mpr fun hmar => ?_⟩
    have hin : other.docId ∈ (idsOf host chunks sourcePath).notDiskIngested :=
      mem_notDiskIngested.mpr ⟨other, hoth, hp, hmar, rfl⟩
    rw [hunm] at hin
    exact Finset.notMem_empty _ hin
  · cases h
  · obtain ⟨docId, hin⟩ := Finset.nonempty_iff_ne_empty.mpr hmar
    obtain ⟨other, hoth, hp, hunm, -⟩ := mem_diskIngested.mp hin
    exact ⟨other, hoth, hp, hunm⟩

variable (host faults chunks) in
/-- **The sweep removes orphans, and leaves none** under the id of its path: what is removed is an
orphan, if no other orphaned path derives its document id, and an orphan that is left has a marked
chunk of its document at its path, or its deletion has raised. -/
theorem orphanSweep_exact :
    (runOrphanCleanup host true faults chunks).rows.Sublist chunks ∧
      (∀ c ∈ chunks, c ∉ (runOrphanCleanup host true faults chunks).rows →
        DerivedByOwn host chunks c → IsOrphan host c) ∧
      ∀ c ∈ (runOrphanCleanup host true faults chunks).rows, IsOrphan host c →
        faults c.sourcePath ≠ none ∨ ∃ marked ∈ chunks, marked.sourcePath = c.sourcePath ∧
          marked.docId = c.docId ∧ isNotDiskIngested host marked = true := by
  refine ⟨?_, fun c hc hgone ho => ?_, fun c hc horph => ?_⟩
  · unfold runOrphanCleanup
    rw [if_pos rfl, rows_foldl_sweepPath, foldl_deleteIn]
    exact filter_sublist
  · rw [mem_runOrphanCleanup_iff] at hgone
    obtain ⟨sourcePath, hloc, hm, hcheck, hid, -⟩ :
        ∃ sourcePath, Hits host faults chunks sourcePath c.docId := by
      by_contra hn
      exact hgone ⟨hc, not_exists.mp hn⟩
    obtain ⟨hmis, hdel⟩ := missing_of_orphanCheck hcheck
    obtain ⟨other, hoth, rfl, hunm⟩ := exists_unmarked_of_shouldDeleteOrphan hm hdel
    have heq := ho other hoth hunm hloc hmis hid
    rw [heq] at hloc hmis hid hdel
    refine ⟨?_, hloc, hmis, hid⟩
    -- a marked chunk of this path has kept its document
    by_contra hmar
    exact notMem_of_shouldDeleteOrphan hdel hid
      (mem_notDiskIngested.mpr ⟨c, hc, rfl, Bool.eq_true_of_not_eq_false hmar, rfl⟩)
  · obtain ⟨hc, hn⟩ := (mem_runOrphanCleanup_iff host chunks faults).mp hc
    by_contra hneit
    obtain ⟨hfault, hunm⟩ := not_or.mp hneit
    rw [not_not] at hfault
    have hdisk : c.docId ∈ (idsOf host chunks c.sourcePath).diskIngested :=
      mem_diskIngested.mpr ⟨c, hc, rfl, horph.unmarked, rfl⟩
    have hnot : c.docId ∉ (idsOf host chunks c.sourcePath).notDiskIngested := by
      intro hm
      obtain ⟨marked, hmar, hp, hst, hid⟩ := mem_notDiskIngested.mp hm
      exact hunm ⟨marked, hmar, hp, hid, hst⟩
    refine hn c.sourcePath ⟨horph.isLocal, mem_map_of_mem hc, ?_, horph.docId_eq, ?_⟩
    · unfold orphanCheck
      rw [horph.missing]
      exact shouldDeleteOrphan_of_mem horph.docId_eq hdisk hnot
    · rw [hfault]
      exact nofun

/-! ### What is left, and what goes with it -/

/-- The id that `/data/x` derives. -/
def dataId : String := "e220a107e93688b121f241203f2fe5c8a65e1648675ff778b4870b62a1e3ca05"

/-- The id that `/data/x` derived when it was a link to `/old/x`. -/
def oldId : String := "81ad9615e6d2525838726e5b878700b6dad33eac9d4986930ab5bf51a29dcb66"

/-- The metadata of an imported chunk. -/
def importedMetadata : String := "\x7b\"_imported\": \"true\"\x7d"

/-- A host where `/old/x` is the only one of the three files that exists. -/
def sampleHost : Host where
  loads text := if text = importedMetadata then .dict [("_imported", "true")] else .dict []
  pathExists sourcePath := .ok (sourcePath = "/old/x")
  resolve sourcePath := .ok sourcePath
  sha256 text :=
    if text = "/data/x" then dataId
    else if text = "/old/x" then oldId
    else "c0fdb79966bef2ddd525299fa99b9780bad1ca5d81405cfe68a730c3de313911"

/-- **The sweep does not delete exactly the orphans.** A chunk under the id that its path derived
once stays, and is counted; a marked chunk, and one whose file exists, go with it where they have
the id that its path derives now. -/
theorem orphanSweep_inexact :
    let orphan : Chunk := ⟨oldId, "/data/x", "{}"⟩
    let imported : Chunk := ⟨dataId, "/srv/x", importedMetadata⟩
    let present : Chunk := ⟨dataId, "/old/x", "{}"⟩
    runOrphanCleanup sampleHost true (fun _ => none) [orphan] = ⟨[orphan], 1⟩ ∧
      isNotDiskIngested sampleHost imported = true ∧
      sampleHost.pathExists present.sourcePath = .ok true ∧
      runOrphanCleanup sampleHost true (fun _ => none) [orphan, imported, present] =
        ⟨[orphan], 1⟩ := by
  refine ⟨?_, ?_, ?_, ?_⟩ <;> decide +kernel

end ArchonSearch.Jobs.OrphanSweep
