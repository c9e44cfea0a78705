import ArchonSearch.Sync.Frame

/-!
# What a sync has brought in line

A collection is in line with its path when it holds one document for each eligible file, with the
chunks of the content that the file has now, and no other (`Converged`).

A sync relies on its indexing state. A collection that has no table or is not `DONE` is ingested
further without the files that were processed (`Resumable`); one that is `DONE` is brought up to
date with the help of the recorded modification times (`Checkable`). Neither is checked by the
code: `Good` is what has to hold of the state in which each event happens.
-/

namespace ArchonSearch.Sync

open Lib Function List

variable {γ τ χ : Type} (setup : Setup γ χ)

/-! ### The property -/

def chunksIn (rows : Rows χ) (path : Path) : List χ :=
  rows.filterMap fun row => if row.1 = path then some row.2 else none

def World.contents (w : World γ τ χ) (name : Name) : Path → List χ := chunksIn (w.rows name)

/-- A collection holds one document for each eligible file, with the chunks of its present
content, and no other. -/
def Converged (w : World γ τ χ) (name : Name) (root : Path) : Prop :=
  ∀ path, w.contents name path =
    if path ∈ iterEligibleFiles setup w.files root then chunksOf setup w.files path else []

/-! ### The condition -/

@[mk_iff]
structure Resumable (files : Dict Path (File γ τ)) (root : Path) (rows : Rows χ)
    (processed : List Path) : Prop where
  unedited : ∀ path ∈ processed, (Dict.get files path).isSome = true →
    chunksIn rows path = chunksOf setup files path
  undeleted : ∀ row ∈ rows, row.1 ∈ iterEligibleFiles setup files root
  passedOver : ∀ path ∈ iterEligibleFiles setup files root,
    path ∉ discoverIngestFiles setup files root → chunksIn rows path = chunksOf setup files path
  blank : ∀ path ∈ discoverIngestFiles setup files root, path ∉ processed →
    chunksOf setup files path = [] → chunksIn rows path = []

def Outcome.failsHalfway : Outcome → Bool
  | fails (some _) => true
  | _ => false

variable [DecidableEq τ]

/-- A collection that is `DONE` may be brought up to date. -/
@[mk_iff]
structure Checkable (files : Dict Path (File γ τ)) (root : Path) (rows : Rows χ)
    (progress : Option (CollectionProgress τ)) (activeModel : String) (replies : List Reply) :
    Prop where
  deletedRecorded : ∀ row ∈ rows, row.1 ∈ iterEligibleFiles setup files root ∨
    (Dict.get (loadFileMtimes progress) row.1).isSome = true
  blank : ∀ path ∈ iterEligibleFiles setup files root,
    (forceFullReindex setup progress activeModel = true ∨
      isCurrent files (loadFileMtimes progress) path = false) →
    chunksOf setup files path = [] → chunksIn rows path = []
  whole : forceFullReindex setup progress activeModel = true →
    ∀ reply ∈ replies, reply.outcome.failsHalfway = false

def Ready (w : World γ τ χ) (activeModel : Name → String) (replies : List Reply) (name : Name)
    (root : Path) : Prop :=
  if (Dict.get w.tables name).isSome = true ∧
      (Dict.get w.collections name).all (fun progress => progress.status = .done) = true then
    Checkable setup w.files root (w.rows name) (Dict.get w.collections name) (activeModel name)
      replies
  else Resumable setup w.files root (w.rows name) (loadProcessedPaths w name)

omit [DecidableEq τ] in
/-- The edits of the config during a sync do not drop the table of a path that stays: no
collection is deleted, or none is added and their names are not shared. -/
def Undisturbed (config : List Path) (edits : List Edit) : Prop :=
  NoneDeleted edits ∨ NoneAdded edits ∧ DistinctNames setup config

/-- **A good event**: what a sync finds and meets lets it bring every collection in line. -/
def Good (w : World γ τ χ) : Event γ τ → Prop
  | .sync activeModel replies =>
    Undisturbed setup w.config (replies.flatMap Reply.edits) ∧
      ∀ entry ∈ (buildDesired setup w.config).items, entry.2 ∈ w.directories →
        Ready setup w activeModel replies entry.1 entry.2
  | .writeFile path file =>
    ∀ entry ∈ w.collections.items, Dict.get entry.2.fileMtimes path ≠ some file.mtime
  | .delete _ _ | .configure _ | .directories _ | .removeFile _ => True

/-! ### Documents -/

omit [DecidableEq τ]

variable {setup}

theorem chunksIn_append (rows rows' : Rows χ) (path : Path) :
    chunksIn (rows ++ rows') path = chunksIn rows path ++ chunksIn rows' path :=
  filterMap_append

theorem exists_row_of_chunksIn_ne_nil {rows : Rows χ} {path : Path} (h : chunksIn rows path ≠ []) :
    ∃ row ∈ rows, row.1 = path := by
  obtain ⟨chunk, hm⟩ := exists_mem_of_ne_nil _ h
  obtain ⟨row, hr, heq⟩ := mem_filterMap.mp hm
  refine ⟨row, hr, ?_⟩
  by_contra hne
  rw [if_neg hne] at heq
  cases heq

theorem chunksIn_deleteRows (rows : Rows χ) (path : Path) :
    chunksIn (deleteRows rows path) = update (chunksIn rows) path [] := by
  funext q
  by_cases hq : q = path
  · subst hq
    rw [update_self]
    refine filterMap_eq_nil_iff.mpr fun row hr => if_neg ?_
    simpa using (mem_filter.mp hr).2
  · rw [update_of_ne hq]
    simp only [chunksIn, deleteRows, filterMap_filter]
    refine filterMap_congr fun row _ => ?_
    by_cases hr : row.1 = q
    · have hne : row.1 ≠ path := hr ▸ hq
      simp [hne]
    · simp [hr]

theorem chunksIn_replace (rows : Rows χ) (path : Path) (chunks : List χ) :
    chunksIn (deleteRows rows path ++ chunks.map fun chunk => (path, chunk)) =
      update (chunksIn rows) path chunks := by
  funext q
  rw [chunksIn_append, chunksIn_deleteRows]
  by_cases hq : q = path
  · subst hq
    simp [chunksIn, filterMap_map]
  · have hne : path ≠ q := fun h => hq h.symm
    simp [chunksIn, filterMap_map, update_of_ne hq, hne]

variable {n : Name} {s : Session γ τ χ}

theorem contents_setTable (rows : Rows χ) :
    (s.setTable n rows).world.contents n = chunksIn rows := by
  simp [World.contents, World.rows, Session.setTable]

theorem contents_deleteDocument (path : Path) :
    (s.deleteDocument n path).world.contents n = update (s.world.contents n) path [] := by
  unfold Session.deleteDocument
  split
  · rename_i rows hrw
    rw [contents_setTable, chunksIn_deleteRows, World.contents, World.rows, hrw]
    rfl
  · rename_i hn
    have hnil : s.world.contents n = fun _ => [] := by
      funext q
      simp [World.contents, World.rows, hn, chunksIn]
    rw [hnil]
    exact (update_eq_self path (fun _ => [] : Path → List χ)).symm

end ArchonSearch.Sync
