import Mathlib.Data.Fintype.Basic
import ArchonSearch.Collections.Reindex
import ArchonSearch.Lib.Run

/-!
# One vector space for each collection

Where no reindex is needed, and none is under way, every vector of a collection should be of its
active model (`State.Consistent`). The code takes it for granted that a reindex that has returned
has embedded everything again. But an ingest of a directory returns although single files have
failed; files outside of the directory, inline documents and files that were deleted are never come
to; an ingest that was dispatched before the promotion goes on with the old model; and a reindex
that was cancelled half-way leaves its vectors behind, with the old model still active, so that
withdrawing the pending one declares the mixture in order.

`Careful` says of each step that none of this happens. A model is promoted when the reindex has
deleted the old rows of every document that has rows. In every run of such steps the collection is
consistent (`consistent_of_careful`); a reindex of a collection that has a file from outside its
directory is enough to make it inconsistent (`inconsistent_outside`).
-/

namespace ArchonSearch.Collections.Reindex

open Lib Jobs List Option

variable {ι δ : Type*}

/-! ### The property -/

def State.IsReindexed (s : State ι δ) : Prop :=
  ∃ job ∈ s.jobs.items, job.status = .pending ∨ job.status = .running

/-- Every stored vector is of the active model, unless a reindex is needed or under way. -/
def State.Consistent (default : String) (s : State ι δ) : Prop :=
  ∀ row ∈ s.metadata, ¬ s.IsReindexed → row.needsReindex = false →
    ∀ chunk ∈ s.rows, chunk.model = resolveActiveModel default (some row)

/-! ### The condition -/

/-- A chunk of a document may be added: the model is the active one, unless a reindex is needed,
and that of every reindex that has come to the document. -/
def State.MayAdd (default : String) (s : State ι δ) (model : String) (doc : δ) : Prop :=
  (∀ row ∈ s.metadata, row.needsReindex = false → model = resolveActiveModel default (some row)) ∧
  ∀ j, ∀ task ∈ s.tasks j, doc ∈ task.covered → task.model = some model

def CollectionMeta.Withdraws (row : CollectionMeta) (requested : String) : Prop :=
  row.pendingEmbeddingModel.isSome = true ∧ row.activeEmbeddingModel = requested

def Task.Settles (task : Task δ) (row : CollectionMeta) : Prop :=
  task.target.isSome = true ∧
    (row.pendingEmbeddingModel = none ∨ row.pendingEmbeddingModel = task.target)

/-- **What the code relies on**, step by step. -/
def Careful (default : String) (configured : Bool) (s : State ι δ) : Event ι δ → Prop
  | .add i _ => ∀ task ∈ s.tasks i, ∀ model ∈ task.model, ∀ doc ∈ task.current,
      s.MayAdd default model doc
  | .patch requested => ∀ row ∈ s.metadata, row.Withdraws requested → s.reembedded = false
  | .promote i written => written = true → configured = true → ∀ task ∈ s.tasks i,
      ∀ row ∈ s.metadata, task.Settles row → ∀ chunk ∈ s.rows, chunk.doc ∈ task.covered
  | .ingest _ | .stub _ | .delete _ _ | .finish _ | .reindex _ _ | .load _ _ | .claim _ _
  | .ingested _ _ | .endTask _ _ | .cancel _ | .evict _ | .crash => True

/-! ### The invariant -/

/-- A task writes with a model that has a name, unless the default one has none; a reindex with a
target writes with it. -/
structure Task.Sound (default : String) (rows : List (Row δ)) (task : Task δ) : Prop where
  named : ∀ model ∈ task.model, model = "" → default = ""
  target : ∀ target ∈ task.target, target ≠ ""
  model : ∀ target ∈ task.target, ∀ model ∈ task.model, model = target
  covered : ∀ chunk ∈ rows, chunk.doc ∈ task.covered → task.model = some chunk.model

structure Sound (default : String) (s : State ι δ) : Prop where
  unclaimed : s.metadata = none → s.rows = []
  uniform : ∀ row ∈ s.metadata, row.needsReindex = false ∨ s.reembedded = false →
    ∀ chunk ∈ s.rows, chunk.model = resolveActiveModel default (some row)
  pending : ∀ row ∈ s.metadata, ∀ model ∈ row.pendingEmbeddingModel,
    model ≠ "" ∧ row.needsReindex = true
  tasks : ∀ i, ∀ task ∈ s.tasks i, task.Sound default s.rows

variable {default : String} {s s' : State ι δ} {row : CollectionMeta} {model : String}

/-! ### Models -/

theorem resolveActiveModel_some (h : row.activeEmbeddingModel = model)
    (hnam : model = "" → default = "") : resolveActiveModel default (some row) = model := by
  subst h
  simp only [resolveActiveModel]
  split_ifs with hbl
  · rw [hnam hbl, hbl]
  · rfl

theorem resolveActiveModel_congr {row' : CollectionMeta}
    (h : row'.activeEmbeddingModel = row.activeEmbeddingModel) :
    resolveActiveModel default (some row') = resolveActiveModel default (some row) := by
  simp only [resolveActiveModel, h]

theorem default_of_resolveActiveModel (metadata : Option CollectionMeta)
    (h : resolveActiveModel default metadata = "") : default = "" := by
  unfold resolveActiveModel at h
  split at h
  · exact h
  · split_ifs at h with hbl
    · exact h
    · exact absurd h hbl

/-! ### Tasks -/

variable {rows : List (Row δ)}

theorem Task.Sound.mono {task : Task δ} {rows' : List (Row δ)}
    (h : task.Sound default rows) (hsub : ∀ chunk ∈ rows', chunk ∈ rows) :
    task.Sound default rows' :=
  { h with covered := fun chunk hm => h.covered chunk (hsub chunk hm) }

/-- A task that covers nothing is sound if its models are. -/
theorem sound_of_covered_nil {task : Task δ} (hcov : task.covered = [])
    (hnam : ∀ model ∈ task.model, model = "" → default = "")
    (htgt : ∀ target ∈ task.target, target ≠ "")
    (hmod : ∀ target ∈ task.target, ∀ model ∈ task.model, model = target) :
    task.Sound default rows :=
  ⟨hnam, htgt, hmod, fun chunk _ hm => by
    rw [hcov] at hm
    cases hm⟩

variable {target : Option String} {jobId : ℕ}

/-- A reindex that goes on, with the model that it has or without one. -/
theorem Task.Sound.next {stage stage' : Stage δ}
    (h : (Task.reindex jobId target stage).Sound default rows)
    (hmod : ∀ model ∈ (Task.reindex jobId target stage').model,
      (Task.reindex jobId target stage).model = some model)
    (hcov : ∀ doc ∈ (Task.reindex jobId target stage').covered,
      doc ∈ (Task.reindex jobId target stage).covered ∧
        (Task.reindex jobId target stage').model = (Task.reindex jobId target stage).model) :
    (Task.reindex jobId target stage').Sound default rows where
  named model hm := h.named model (hmod model hm)
  target := h.target
  model target htgt model hm := h.model target htgt model (hmod model hm)
  covered chunk hm hd := by
    obtain ⟨hd, heq⟩ := hcov chunk.doc hd
    exact heq.trans (h.covered chunk hm hd)

/-! ### Steps -/

/-- A step that leaves the rows and the metadata row. -/
theorem Sound.congr (hs : Sound default s) (hrw : s'.rows = s.rows)
    (hmeta : s'.metadata = s.metadata) (hreem : s'.reembedded = s.reembedded)
    (htas : ∀ i, ∀ task ∈ s'.tasks i, task.Sound default s.rows) : Sound default s' := by
  refine ⟨?_, ?_, ?_, ?_⟩
  · rw [hmeta, hrw]
    exact hs.unclaimed
  · rw [hmeta, hrw, hreem]
    exact hs.uniform
  · rw [hmeta]
    exact hs.pending
  · rw [hrw]
    exact htas

theorem Sound.setPointer (hs : Sound default s) (hrw : s'.rows = s.rows)
    (hreem : s'.reembedded = s.reembedded) (hr : s.metadata = some row)
    (jobId : Option ℕ) (hmeta : s'.metadata = some { row with reindexJobId := jobId })
    (htas : ∀ i, ∀ task ∈ s'.tasks i, task.Sound default s.rows) : Sound default s' := by
  refine ⟨fun hn => ?_, ?_, ?_, ?_⟩
  · rw [hmeta] at hn
    cases hn
  · rw [hmeta, hrw, hreem]
    rintro row' ⟨⟩ hneeds
    exact hs.uniform row hr hneeds
  · rw [hmeta]
    rintro row' ⟨⟩
    exact hs.pending row hr
  · rw [hrw]
    exact htas

theorem clearPointer_eq (row : CollectionMeta) (jobId : ℕ) :
    ∃ pointer, row.clearPointer jobId = { row with reindexJobId := pointer } := by
  unfold CollectionMeta.clearPointer
  split_ifs
  · exact ⟨none, rfl⟩
  · exact ⟨row.reindexJobId, rfl⟩

/-- What a request makes of the metadata row: the model stays as it is, or the pending one is
withdrawn, or another one is pending, or it is changed where there are no chunks. -/
theorem patch_cases (row : CollectionMeta) (jobs : Table) (count : ℕ) (requested : String) :
    ((row.patch jobs count requested).activeEmbeddingModel = row.activeEmbeddingModel ∧
        (row.patch jobs count requested).pendingEmbeddingModel = row.pendingEmbeddingModel ∧
        (row.patch jobs count requested).needsReindex = row.needsReindex) ∨
      (row.Withdraws requested ∧
        (row.patch jobs count requested).activeEmbeddingModel = row.activeEmbeddingModel ∧
        (row.patch jobs count requested).pendingEmbeddingModel = none) ∨
      ((row.patch jobs count requested).activeEmbeddingModel = row.activeEmbeddingModel ∧
        (row.patch jobs count requested).pendingEmbeddingModel = some requested ∧
        (row.patch jobs count requested).needsReindex = true) ∨
      (count = 0 ∧ (row.patch jobs count requested).pendingEmbeddingModel = none) := by
  unfold CollectionMeta.patch
  dsimp only
  split_ifs with href heq hpen hact hcnt
  · exact Or.inl ⟨rfl, rfl, rfl⟩
  · exact Or.inl ⟨rfl, rfl, rfl⟩
  · exact Or.inl ⟨rfl, rfl, rfl⟩
  · refine Or.inr (Or.inl ⟨⟨?_, hact⟩, rfl, rfl⟩)
    rw [isSome_iff_ne_none]
    exact fun hn => heq ⟨hact, hn⟩
  · exact Or.inr (Or.inr (Or.inl ⟨rfl, rfl, rfl⟩))
  · exact Or.inr (Or.inr (Or.inr ⟨Nat.eq_zero_of_not_pos hcnt, rfl⟩))

/-- **The model is changed by a request.** -/
theorem sound_patch {configured : Bool} {requested : String} (hs : Sound default s)
    (hcar : ∀ row ∈ s.metadata, row.Withdraws requested → s.reembedded = false)
    (h : s.patch configured requested = some s') : Sound default s' := by
  unfold State.patch at h
  split at h
  · cases h
  rename_i row hr
  split_ifs at h with hguard
  cases h
  rw [not_or] at hguard
  have hcs := patch_cases row s.jobs s.rows.length requested
  refine ⟨(absurd · (some_ne_none _)), ?_, ?_, hs.tasks⟩
  · rintro row' ⟨⟩ hneeds chunk hm
    have hne : s.rows.isEmpty = false := isEmpty_eq_false_iff.mpr (ne_nil_of_mem hm)
    have hunif (hneeds : row.needsReindex = false ∨ s.reembedded = false) :
        chunk.model = resolveActiveModel default (some row) :=
      hs.uniform row hr hneeds chunk hm
    simp only [hne, Bool.not_false, Bool.and_true, Bool.and_eq_false_iff] at hneeds
    rcases hcs with ⟨hact, -, heq⟩ | ⟨hwit, hact, -⟩ | ⟨hact, -, htrue⟩ | ⟨hz, -⟩
    · rw [resolveActiveModel_congr hact]
      rw [heq] at hneeds
      exact hunif (hneeds.elim Or.inl Or.symm)
    · rw [resolveActiveModel_congr hact]
      exact hunif (Or.inr (hcar row hr hwit))
    · rw [resolveActiveModel_congr hact]
      rw [htrue] at hneeds
      exact hunif ((hneeds.resolve_left Bool.noConfusion).symm)
    · rw [length_eq_zero_iff.mp hz] at hm
      cases hm
  · rintro row' ⟨⟩ model hmod
    rcases hcs with ⟨-, heq, hneeds⟩ | ⟨-, -, hn⟩ | ⟨-, hpen, hneeds⟩ | ⟨-, hn⟩
    · rw [heq] at hmod
      rw [hneeds]
      exact hs.pending row hr model hmod
    · rw [hn] at hmod
      cases hmod
    · rw [hpen] at hmod
      cases hmod
      exact ⟨hguard.2, hneeds⟩
    · rw [hn] at hmod
      cases hmod

variable {i : ι}

/-- **A batch is added.** -/
theorem sound_addChunks {count : ℕ} (hs : Sound default s)
    (hcar : ∀ task ∈ s.tasks i, ∀ model ∈ task.model, ∀ doc ∈ task.current,
      s.MayAdd default model doc)
    (h : s.addChunks default i count = some s') : Sound default s' := by
  unfold State.addChunks at h
  split at h
  · cases h
  rename_i task htask
  split at h <;> cases h
  rename_i model doc hmod hd
  obtain ⟨hact, hcov⟩ := hcar task htask model hmod doc hd
  have hclm : resolveActiveModel default (some { activeEmbeddingModel := model }) = model :=
    resolveActiveModel_some rfl ((hs.tasks i task htask).named model hmod)
  refine ⟨(absurd · (some_ne_none _)), ?_, ?_, fun j task' ht' => ?_⟩
  · rintro row ⟨⟩ hneeds chunk hm
    cases hmeta : s.metadata with
    | none =>
      -- the first batch of the collection
      rw [hs.unclaimed hmeta, nil_append] at hm
      obtain ⟨-, rfl⟩ := mem_replicate.mp hm
      exact hclm.symm
    | some row =>
      simp only [hmeta, getD_some, Bool.or_eq_false_iff, decide_eq_false_iff_not,
        not_not] at hneeds ⊢
      rcases mem_append.mp hm with hm | hm
      · exact hs.uniform row hmeta (hneeds.imp_right And.left) chunk hm
      · obtain ⟨-, rfl⟩ := mem_replicate.mp hm
        exact hneeds.elim (hact row hmeta) And.right
  · rintro row ⟨⟩ pending hpen
    cases hmeta : s.metadata with
    | none =>
      rw [hmeta] at hpen
      cases hpen
    | some row =>
      rw [hmeta] at hpen
      exact hs.pending row hmeta pending hpen
  · refine { hs.tasks j task' ht' with covered := fun chunk hm hin => ?_ }
    rcases mem_append.mp hm with hm | hm
    · exact (hs.tasks j task' ht').covered chunk hm hin
    · obtain ⟨-, rfl⟩ := mem_replicate.mp hm
      exact hcov j task' ht' hin

variable [DecidableEq ι] {task : Option (Task δ)}

theorem forall_tasks_setTask {P : Task δ → Prop}
    (h : ∀ j, ∀ task ∈ s.tasks j, P task) (htask : ∀ task' ∈ task, P task') :
    ∀ j, ∀ task' ∈ (s.setTask i task).tasks j, P task' := by
  intro j task' hm
  simp only [State.setTask] at hm
  by_cases hj : j = i
  · subst hj
    rw [Function.update_self] at hm
    exact htask task' hm
  · rw [Function.update_of_ne hj] at hm
    exact h j task' hm

theorem Sound.setTask (hs : Sound default s)
    (htask : ∀ task' ∈ task, task'.Sound default s.rows) : Sound default (s.setTask i task) :=
  hs.congr rfl rfl rfl (forall_tasks_setTask hs.tasks htask)

/-- **A document is deleted**, by an ingest that is to add it again. -/
theorem sound_deleteDocument [DecidableEq δ] {inside : δ → Bool} {doc : δ}
    (hs : Sound default s) (h : s.deleteDocument inside i doc = some s') : Sound default s' := by
  have hsub : ∀ chunk ∈ s.rows.filter fun row => row.doc ≠ doc, chunk ∈ s.rows :=
    fun chunk hm => (mem_filter.mp hm).1
  have hdel : Sound default { s with rows := s.rows.filter fun row => row.doc ≠ doc } := by
    refine ⟨fun hn => ?_, fun row hr hneeds chunk hm => ?_, hs.pending, ?_⟩
    · dsimp only
      rw [hs.unclaimed hn]
      rfl
    · exact hs.uniform row hr hneeds chunk (hsub chunk hm)
    · exact fun j task htask => (hs.tasks j task htask).mono hsub
  unfold State.deleteDocument at h
  split at h
  · rename_i model current htask
    cases h
    refine hdel.setTask ?_
    rintro task ⟨⟩
    have hsd := hs.tasks i _ htask
    exact sound_of_covered_nil rfl hsd.named hsd.target hsd.model
  · rename_i jobId target model covered current htask
    obtain ⟨-, rfl⟩ := of_guard h
    refine hdel.setTask ?_
    rintro task ⟨⟩
    have hsd := hs.tasks i _ htask
    refine ⟨hsd.named, hsd.target, hsd.model, fun chunk hm hin => ?_⟩
    obtain ⟨hm, hne⟩ := mem_filter.mp hm
    rcases mem_cons.mp hin with heq | hin
    · simp [heq] at hne
    · exact hsd.covered chunk hm hin
  · cases h

/-- **A reindex is requested**, with the pending model as its target. -/
theorem sound_reindex {recorded : Bool} (hs : Sound default s)
    (h : s.reindex i recorded = some s') : Sound default s' := by
  unfold State.reindex at h
  split at h
  · rename_i row htask hr
    split_ifs at h
    · cases h
      refine hs.setPointer rfl rfl hr _ rfl (forall_tasks_setTask hs.tasks ?_)
      rintro task ⟨⟩
      refine sound_of_covered_nil rfl (fun model hmod => ?_) (fun target htgt => ?_) ?_
      · cases hmod
      · exact (hs.pending row hr target htgt).1
      · rintro target - model hmod
        cases hmod
    · cases h
      exact hs.congr rfl rfl rfl hs.tasks
  · cases h

/-- A reindex goes on with the model that it has, or with none. -/
theorem Sound.next {stage stage' : Stage δ}
    (hs : Sound default s) (htask : s.tasks i = some (.reindex jobId target stage))
    (hmod : ∀ model ∈ (Task.reindex jobId target stage').model,
      (Task.reindex jobId target stage).model = some model)
    (hcov : ∀ doc ∈ (Task.reindex jobId target stage').covered,
      doc ∈ (Task.reindex jobId target stage).covered ∧
        (Task.reindex jobId target stage').model = (Task.reindex jobId target stage).model) :
    Sound default (s.setTask i (some (.reindex jobId target stage'))) := by
  refine hs.setTask ?_
  rintro task ⟨⟩
  exact (hs.tasks i _ htask).next hmod hcov

theorem Sound.ending {stage : Stage δ}
    (hs : Sound default s) (htask : s.tasks i = some (.reindex jobId target stage))
    (ending : Ending) :
    Sound default (s.setTask i (some (.reindex jobId target (.ending ending)))) :=
  hs.next htask (fun _ hmod => by cases hmod) fun _ hd => by cases hd

/-- **A reindex has its embedder.** -/
theorem sound_load {loads : Bool} (hs : Sound default s)
    (h : s.load default i loads = some s') : Sound default s' := by
  unfold State.load at h
  split at h <;> cases h
  rename_i jobId target htask
  split
  · exact hs.ending htask _
  · exact hs.ending htask _
  · exact hs.ending htask _
  · split_ifs
    · refine hs.setTask ?_
      rintro task ⟨⟩
      have htgt := (hs.tasks i _ htask).target
      refine sound_of_covered_nil rfl ?_ htgt ?_
      · rintro model ⟨⟩ hbl
        cases htgt' : target with
        | none =>
          rw [htgt', getD_none] at hbl
          exact default_of_resolveActiveModel _ hbl
        | some target =>
          rw [htgt', getD_some] at hbl
          exact absurd hbl (htgt target htgt')
      · rintro target' htgt' model ⟨⟩
        rw [show target = some target' from htgt', getD_some]
    · exact hs.ending htask _

theorem sound_claim {configured : Bool} {persisted : Bool} (hs : Sound default s)
    (h : s.claim configured i persisted = some s') : Sound default s' := by
  unfold State.claim at h
  split at h
  · rename_i jobId target model htask
    split at h
    · have hjs : Sound default { s with jobs := modifyJob s.jobs jobId fun _ => .running } :=
        hs.congr rfl rfl rfl hs.tasks
      split_ifs at h
      · cases h
        refine hjs.next htask (fun _ hmod => hmod) fun _ hd => ?_
        cases hd
      · cases h
        refine hjs.next htask (fun _ hmod => hmod) fun _ hd => ?_
        cases hd
      · cases h
        exact hs.ending htask _
    · cases h
      exact hs.setTask fun _ ht' => by cases ht'
    · cases h
      exact hs.ending htask _
  · cases h

theorem sound_ingested {outcome : Outcome} (hs : Sound default s)
    (h : s.ingested i outcome = some s') : Sound default s' := by
  unfold State.ingested at h
  split at h <;> cases h
  rename_i jobId target model covered current htask
  cases outcome with
  | returned =>
    split_ifs
    · exact hs.ending htask _
    · exact hs.next htask (fun _ hmod => hmod) fun _ hd => ⟨hd, rfl⟩
  | raised => exact hs.ending htask _
  | cancelled => exact hs.ending htask _

theorem promote_cases (row : CollectionMeta) (target : String) :
    (row.promote target).activeEmbeddingModel = target ∧
      ((row.promote target).pendingEmbeddingModel = none ∧
          (row.pendingEmbeddingModel = none ∨ row.pendingEmbeddingModel = some target) ∨
        (row.promote target).pendingEmbeddingModel = row.pendingEmbeddingModel ∧
          row.pendingEmbeddingModel.isSome = true ∧
          (row.promote target).needsReindex = row.needsReindex) := by
  unfold CollectionMeta.promote
  dsimp only
  split_ifs with heq hoth
  · exact ⟨rfl, Or.inl ⟨rfl, Or.inr heq⟩⟩
  · exact ⟨rfl, Or.inr ⟨rfl, hoth, rfl⟩⟩
  · have hn := not_isSome_iff_eq_none.mp hoth
    exact ⟨rfl, Or.inl ⟨hn, Or.inl hn⟩⟩

omit [DecidableEq ι] in
/-- **A model is promoted**: every document that has rows is covered, or the collection still
needs a reindex. -/
theorem sound_promoteRow [DecidableEq δ] {configured : Bool} {covered : List δ}
    (hs : Sound default s)
    (htask : (Task.reindex jobId target (.promoting model covered)).Sound default s.rows)
    (hcar : configured = true → ∀ row ∈ s.metadata,
      (Task.reindex jobId target (.promoting model covered)).Settles row →
      ∀ chunk ∈ s.rows, chunk.doc ∈ covered) :
    Sound default (s.promoteRow configured jobId target covered) := by
  cases hmeta : s.metadata with
  | none =>
    simp only [State.promoteRow, hmeta]
    exact hs
  | some row =>
    obtain ⟨pointer, hptr⟩ := clearPointer_eq row jobId
    cases target with
    | none =>
      simp only [State.promoteRow, hmeta, hptr]
      exact hs.setPointer rfl rfl hmeta pointer rfl hs.tasks
    | some target =>
      simp only [State.promoteRow, hmeta, hptr]
      split_ifs with hconf
      · have hnam : target ≠ "" := htask.target target rfl
        obtain ⟨hact, hcs⟩ :=
          promote_cases { row with reindexJobId := pointer } target
        -- what is covered is of the target
        have hcov (chunk : Row δ) (hm : chunk ∈ s.rows) (hin : chunk.doc ∈ covered) :
            chunk.model = target :=
          htask.model target rfl _ (htask.covered chunk hm hin)
        refine ⟨(absurd · (some_ne_none _)), ?_, ?_, hs.tasks⟩
        · rintro row' ⟨⟩ hneeds chunk hm
          rw [resolveActiveModel_some hact fun hbl => absurd hbl hnam]
          refine hcov chunk hm ?_
          rcases hcs with ⟨-, hst⟩ | ⟨-, hsm, heq⟩
          · exact hcar hconf row hmeta ⟨rfl, hst⟩ chunk hm
          · obtain ⟨other, hoth⟩ := isSome_iff_exists.mp hsm
            rw [heq, (hs.pending row hmeta other hoth).2] at hneeds
            have hall := hneeds.resolve_left Bool.noConfusion
            rw [List.any_eq_false] at hall
            simpa using hall chunk hm
        · rintro row' ⟨⟩ other hoth
          rcases hcs with ⟨hn, -⟩ | ⟨heq, -, hneeds⟩
          · rw [hn] at hoth
            cases hoth
          · rw [heq] at hoth
            rw [hneeds]
            exact hs.pending row hmeta other hoth
      · exact hs.setPointer rfl rfl hmeta pointer rfl hs.tasks

variable {written : Bool}

theorem sound_promote [DecidableEq δ] {configured : Bool}
    (hs : Sound default s)
    (hcar : written = true → configured = true → ∀ task ∈ s.tasks i,
      ∀ row ∈ s.metadata, task.Settles row → ∀ chunk ∈ s.rows, chunk.doc ∈ task.covered)
    (h : s.promote configured i written = some s') : Sound default s' := by
  unfold State.promote at h
  split at h <;> cases h
  rename_i jobId target model covered htask
  refine Sound.setTask ?_ fun _ ht' => by cases ht'
  split_ifs with hwrt
  · have hprom := sound_promoteRow hs (hs.tasks i _ htask) fun hconf => hcar hwrt hconf _ htask
    exact hprom.congr rfl rfl rfl hprom.tasks
  · exact hs.congr rfl rfl rfl hs.tasks

theorem sound_endTask (hs : Sound default s)
    (h : s.endTask i written = some s') : Sound default s' := by
  unfold State.endTask at h
  split at h <;> cases h
  rename_i jobId target ending htask
  refine Sound.setTask ?_ fun _ ht' => by cases ht'
  split_ifs
  · cases hmeta : s.metadata with
    | none => exact hs.congr rfl hmeta.symm rfl hs.tasks
    | some row =>
      obtain ⟨pointer, hptr⟩ := clearPointer_eq row jobId
      exact hs.setPointer rfl rfl hmeta pointer (congrArg some hptr) hs.tasks
  · exact hs.congr rfl rfl rfl hs.tasks

/-! ### Runs -/

variable [DecidableEq δ] {configured : Bool} {inside : δ → Bool}

/-- **A careful step** leaves one vector space. -/
theorem sound_step {e : Event ι δ} (hcar : Careful default configured s e)
    (hs : Sound default s) (h : step default configured inside s e = some s') :
    Sound default s' := by
  cases e with
  | patch requested => exact sound_patch hs hcar h
  | ingest i =>
    simp only [step] at h
    split at h <;> cases h
    refine hs.setTask ?_
    rintro task ⟨⟩
    refine sound_of_covered_nil rfl ?_ (fun _ htgt => by cases htgt) fun _ htgt => by
      cases htgt
    rintro model ⟨⟩ hbl
    exact default_of_resolveActiveModel _ hbl
  | stub i =>
    simp only [step] at h
    split at h <;> cases h
    refine Sound.setTask ?_ fun _ ht' => by cases ht'
    cases hmeta : s.metadata with
    | none =>
      have hnil := hs.unclaimed hmeta
      refine ⟨(absurd · (some_ne_none _)), fun row _ _ chunk hm => ?_, ?_, hs.tasks⟩
      · dsimp only at hm
        rw [hnil] at hm
        cases hm
      · rintro row ⟨⟩ model' ⟨⟩
    | some row => exact hs.congr rfl hmeta.symm rfl hs.tasks
  | delete i doc => exact sound_deleteDocument hs h
  | add i count => exact sound_addChunks hs hcar h
  | finish i =>
    simp only [step] at h
    split at h <;> cases h
    exact hs.setTask fun _ htask => by cases htask
  | reindex i recorded => exact sound_reindex hs h
  | load i loads => exact sound_load hs h
  | claim i persisted => exact sound_claim hs h
  | ingested i outcome => exact sound_ingested hs h
  | promote i written => exact sound_promote hs hcar h
  | endTask i written => exact sound_endTask hs h
  | cancel jobId =>
    cases h
    exact hs.congr rfl rfl rfl hs.tasks
  | evict jobId =>
    obtain ⟨-, rfl⟩ := of_guard h
    exact hs.congr rfl rfl rfl hs.tasks
  | crash =>
    cases h
    exact hs.congr rfl rfl rfl fun _ _ htask => by cases htask

omit [DecidableEq ι] [DecidableEq δ] in
theorem sound_empty : Sound default (State.empty : State ι δ) where
  unclaimed _ := rfl
  uniform _ hr := by cases hr
  pending _ hr := by cases hr
  tasks _ _ htask := by cases htask

/-- **A collection has one vector space where every step is careful**: whatever models are
requested, jobs are cancelled, files fail and processes die. -/
theorem consistent_of_careful {es : List (Event ι δ)}
    (hcareful : Along (step default configured inside) (Careful default configured) State.empty es)
    (hrun : run (step default configured inside) State.empty es = some s) :
    s.Consistent default := by
  have hsd : Sound default s :=
    run_invariant_along (fun _ _ _ hcareful hs h => sound_step hcareful hs h) hcareful
      sound_empty hrun
  exact fun row hr _ hneeds => hsd.uniform row hr (Or.inl hneeds)

def sampleIngest (i : Fin 2) (doc : Bool) : List (Event (Fin 2) Bool) :=
  [.ingest i, .delete i doc, .add i 1, .finish i]

def sampleStart (i : Fin 2) : List (Event (Fin 2) Bool) :=
  [.reindex i true, .load i true, .claim i true]

/-- A file of the directory is ingested, and one that is not; then the model is changed, and the
collection is reindexed. -/
def careless : List (Event (Fin 2) Bool) :=
  sampleIngest 0 true ++ sampleIngest 0 false ++ [.patch "b"] ++ sampleStart 0 ++
    [.delete 0 true, .add 0 1, .ingested 0 .returned, .promote 0 true]

/-- The same with the directory alone; a first reindex is cancelled half-way, and a file is
ingested before the second one comes to it. -/
def cautious : List (Event (Fin 2) Bool) :=
  sampleIngest 0 true ++ [.patch "b"] ++ sampleStart 0 ++
    [.delete 0 true, .cancel 0, .ingested 0 .returned, .endTask 0 true] ++ sampleIngest 1 true ++
    sampleStart 0 ++ [.delete 0 true, .add 0 1, .ingested 0 .returned, .promote 0 true] ++
    sampleIngest 1 true

instance (s : State ι δ) : Decidable s.IsReindexed :=
  inferInstanceAs (Decidable (∃ job ∈ s.jobs.items, _ ∨ _))

instance (row : CollectionMeta) (requested : String) : Decidable (row.Withdraws requested) :=
  inferInstanceAs (Decidable (_ ∧ _))

instance (task : Task δ) (row : CollectionMeta) : Decidable (task.Settles row) :=
  inferInstanceAs (Decidable (_ ∧ (_ ∨ _)))

instance [Fintype ι] (s : State ι δ) (model : String) (doc : δ) :
    Decidable (s.MayAdd default model doc) :=
  inferInstanceAs (Decidable ((∀ row ∈ s.metadata, _ → _) ∧
    ∀ j, ∀ task ∈ s.tasks j, doc ∈ task.covered → _))

instance Careful.decidable [Fintype ι] (s : State ι δ) (e : Event ι δ) :
    Decidable (Careful default configured s e) := by
  unfold Careful
  split <;> infer_instance

def State.isMigrated (s : State (Fin 2) Bool) : Bool :=
  decide (¬ s.IsReindexed ∧ s.metadata = some ⟨"b", none, false, none⟩ ∧ s.rows = [⟨true, "b"⟩])

/-- A cautious run changes the model of a collection. -/
theorem consistent_of_careful_cautious :
    Along (step "a" true id) (Careful "a" true) State.empty cautious ∧
      ∃ s, run (step "a" true id) State.empty cautious = some s ∧ s.isMigrated = true ∧
        s.Consistent "a" := by
  have hcar : Along (step "a" true id) (Careful "a" true) State.empty cautious := by
    decide +kernel
  obtain ⟨s, hs, hmig⟩ : ∃ s ∈ run (step "a" true id) State.empty cautious,
      s.isMigrated = true := by
    decide +kernel
  exact ⟨hcar, s, hs, hmig, consistent_of_careful hcar hs⟩

def State.isMixed (s : State (Fin 2) Bool) : Bool :=
  decide (¬ s.IsReindexed ∧ s.metadata = some ⟨"b", none, false, none⟩ ∧
    (⟨false, "a"⟩ : Row Bool) ∈ s.rows)

/-- **A promotion mixes two vector spaces**: the file that is not in the directory keeps the
vectors of the old model. -/
theorem inconsistent_outside :
    ¬ ∀ (es : List (Event (Fin 2) Bool)) (s : State (Fin 2) Bool),
      run (step "a" true id) State.empty es = some s → s.Consistent "a" := by
  intro h
  obtain ⟨s, hs, hmix⟩ : ∃ s ∈ run (step "a" true id) State.empty careless, s.isMixed = true := by
    decide +kernel
  obtain ⟨hidle, hmeta, hm⟩ := of_decide_eq_true hmix
  have heq := h careless s hs _ hmeta hidle rfl _ hm
  revert heq
  decide

end ArchonSearch.Collections.Reindex
