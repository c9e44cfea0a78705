import ArchonSearch.Descriptions.Invariant

/-!
# The model of a routing vector

The vector of a description is compared with queries that the model of the collection embeds, so it
should be one of that model. The model changes in three ways: by a `PATCH` or the tool
`update_collection` where there are no chunks, and by the promotion of a reindex. Each takes the
vector away with it. A recompute repairs a missing vector, and compares the model again under the
lock.

A description write does not. It reads the row and with it the model, embeds, and writes under the
lock; the guard of a generated write compares the description and not the model, and an import or a
set has no guard. A model that changes in between leaves a vector of the old one. So the vectors are
right exactly in the runs in which no new vector lands after the model has changed since its writer
read it (`routed_iff_landsInTime`); one `PATCH` is enough (`misrouted_overtaken`).

The contract of this module is about the lock, the row, and the model that a task has read.
-/

namespace ArchonSearch.Descriptions.Routing

open Lib Async Function Option

variable {ι : Type} {n : ℕ} {τ : Type}

/-! ### The other writers -/

/-- `update_collection`, as far as the row goes; whether the model is refused before, and whether
the server knows of jobs. -/
def updateCollection (requested : String) (refused jobStore : Bool) : Program n τ Unit := do
  match ← ask .getCollectionMeta with
  | none => raise (.error "not_found")
  | some _ =>
    if refused then raise (.error "validation_error")
    else lockedCollectionMeta fun
      | none => raise (.error "not_found")
      | some row => do
        let named := row.reindexJobId.isSome && jobStore
        match ← (if named then ask .jobIsActive else pure false) with
        | true => raise (.error "conflict")
        | false =>
          let row := if named then { row with reindexJobId := none } else row
          let _ ← switchModel row requested named
          pure ()

/-- The row after the promotion of a reindex (`promote_model`). -/
def promoted (row : CollectionMeta n τ) (target : String) : CollectionMeta n τ :=
  let row :=
    if row.activeEmbeddingModel ≠ target ∧ row.descriptionEmbedding.isSome then
      { row with descriptionEmbedding := none, needsRecompute := true }
    else row
  let row := { row with activeEmbeddingModel := target }
  if row.pendingEmbeddingModel = some target then
    { row with pendingEmbeddingModel := none, needsReindex := false }
  else if row.pendingEmbeddingModel.isSome then row
  else { row with needsReindex := false }

/-- The success path of `_reindex_task`: whether the collection has a directory that was scanned. -/
def promoteModel (jobId : String) (targetModel : Option String) (scanned : Bool) :
    Program n τ Unit := do
  let _ ← attempt (lockedCollectionMeta fun
    | none => pure ()
    | some row =>
      let row := if row.reindexJobId = some jobId then { row with reindexJobId := none } else row
      match targetModel with
      | some target => writeMetaUnlocked false (if scanned then promoted row target else row)
      | none => writeMetaUnlocked false row)
  pure ()

/-- A task that writes the row: a call of the lifecycle, the tool, or a promotion. -/
inductive Task (n : ℕ) (τ : Type) where
  | call : Call n τ → Task n τ
  /-- `update_collection`. -/
  | update : (requested : String) → (refused jobStore : Bool) → Task n τ
  | promote : (jobId : String) → (targetModel : Option String) → (scanned : Bool) → Task n τ

/-- What the task does. -/
def Task.program [DecidableEq τ] (defaultModel : String) : Task n τ → Program n τ Unit
  | .call c => c.program defaultModel
  | .update requested refused jobStore => updateCollection requested refused jobStore
  | .promote jobId targetModel scanned => promoteModel jobId targetModel scanned

/-! ### States -/

/-- The world of the writers, what everybody has been called for, and the model that they have
read. -/
structure Watched (ι : Type) (n : ℕ) (τ : Type) where
  world : World ι n τ
  task : ι → Option (Task n τ)
  /-- History: the model that `get_collection_meta` has told them last. -/
  read : ι → Option String

/-- The world, and what each task has still to do. -/
abbrev State (ι : Type) (n : ℕ) (τ : Type) : Type := Watched ι n τ × (ι → Program n τ Unit)

/-- Nothing was started. -/
def State.init (row : Option (CollectionMeta n τ)) : State ι n τ :=
  (⟨.init row, fun _ => none, fun _ => none⟩, fun _ => .ret ())

/-- A task is started, or an operation of it is answered. -/
inductive Event (ι : Type) (n : ℕ) (τ : Type) where
  | start : ι → Task n τ → Event ι n τ
  | step : ι → Reply n τ → Event ι n τ

section Steps

variable [DecidableEq ι] [DecidableEq τ]

/-- The model that the task has read last. -/
def readAfter (defaultModel : String) (read : Option String) :
    (op : Op n τ) → Except Raised (Ans op) → Option String
  | .getCollectionMeta, .ok row => row.map (resolveModel defaultModel)
  | _, _ => read

/-- The operation is executed, and the model noted if it was a read of the row. -/
def Watched.exec (defaultModel : String) (i : ι) (op : Op n τ) (reply : Reply n τ)
    (w : Watched ι n τ) : Option (Except Raised (Ans op) × Watched ι n τ) :=
  (w.world.exec i op reply).map fun result =>
    (result.1, { w with
      world := result.2
      read := update w.read i (readAfter defaultModel (w.read i) op result.1) })

omit [DecidableEq τ] in
/-- The task is there from now on. -/
def Watched.accept (w : Watched ι n τ) (i : ι) (task : Task n τ) : Watched ι n τ :=
  { w with
    task := update w.task i (some task)
    world := match task with
      | .call c => w.world.accept i c
      | _ => w.world }

/-- A task may be started: there is none under its name, and one run at a time. -/
def Watched.accepts (w : Watched ι n τ) (i : ι) (task : Task n τ) : Bool :=
  (w.task i).isNone &&
    match task with
    | .call c => decide (IsRun (some c) → w.world.inFlight = none)
    | _ => true

/-- One event; `none` where it cannot happen. -/
def step (defaultModel : String) (s : State ι n τ) : Event ι n τ → Option (State ι n τ)
  | .start i task =>
    if s.1.accepts i task then
      some (s.1.accept i task, update s.2 i (task.program defaultModel))
    else none
  | .step i reply => advance (Watched.exec defaultModel) s i reply

end Steps

/-! ### Vectors of the right model -/

/-- **The vector is one of the model** that queries are embedded with. -/
def IsRouted (defaultModel : String) (m : CollectionMeta n τ) : Prop :=
  ∀ v, m.descriptionEmbedding = some v → v.model = resolveModel defaultModel m

section Rows

variable {defaultModel : String} {m row : CollectionMeta n τ}

instance : Decidable (IsRouted defaultModel m) :=
  decidable_of_iff (∀ v ∈ m.descriptionEmbedding, v.model = resolveModel defaultModel m) Iff.rfl

theorem isRouted_of_none (hvec : row.descriptionEmbedding = none) :
    IsRouted defaultModel row := by
  intro v hv
  rw [hvec] at hv
  cases hv

theorem IsRouted.congr (hm : IsRouted defaultModel m)
    (hvec : row.descriptionEmbedding = m.descriptionEmbedding)
    (hmod : row.activeEmbeddingModel = m.activeEmbeddingModel) : IsRouted defaultModel row := by
  intro v hv
  rw [hvec] at hv
  rw [resolveModel, hmod]
  exact hm v hv

theorem IsRouted.stored (hm : IsRouted defaultModel m) : IsRouted defaultModel m.stored :=
  hm.congr rfl rfl

/-- **A repaired vector** is one of the model of the row that it is written to. -/
theorem IsRouted.repaired {embedder : String} {legacy : Option Embedding}
    (hm : IsRouted defaultModel m) (hleg : ∀ v ∈ legacy, v.model = embedder)
    (hvec : row.descriptionEmbedding = repairedEmbedding defaultModel embedder m legacy)
    (hmod : row.activeEmbeddingModel = m.activeEmbeddingModel) : IsRouted defaultModel row := by
  intro v hv
  rw [hvec] at hv
  rw [resolveModel, hmod]
  unfold repairedEmbedding at hv
  split at hv
  next w hn =>
    obtain ⟨heq, rfl⟩ := of_guard hv
    exact (hleg w rfl).trans heq.2.symm
  next => exact hm v hv

theorem promoted_model (m : CollectionMeta n τ) (target : String) :
    (promoted m target).activeEmbeddingModel = target := by
  unfold promoted
  dsimp only
  split_ifs <;> rfl

theorem promoted_vector (m : CollectionMeta n τ) (target : String) :
    (promoted m target).descriptionEmbedding =
      if m.activeEmbeddingModel = target then m.descriptionEmbedding else none := by
  have hn (heq : m.activeEmbeddingModel ≠ target) (hk : ¬(m.activeEmbeddingModel ≠ target ∧
      m.descriptionEmbedding.isSome)) : m.descriptionEmbedding = none :=
    not_isSome_iff_eq_none.mp fun hs => hk ⟨heq, hs⟩
  unfold promoted
  dsimp only
  split_ifs with hclear heq
  all_goals first | rfl | exact absurd ‹_› hclear.1 | exact hn ‹_› hclear

/-- A promotion takes the vector of another model away. -/
theorem IsRouted.promoted (hm : IsRouted defaultModel m) (target : String) :
    IsRouted defaultModel (promoted m target) := by
  by_cases heq : m.activeEmbeddingModel = target
  · refine hm.congr ?_ ((promoted_model m target).trans heq.symm)
    rw [promoted_vector, if_pos heq]
  · refine isRouted_of_none ?_
    rw [promoted_vector, if_neg heq]

end Rows

/-! ### The contract -/

/-- The hold of the lock, and the model that was read. -/
structure Know (n : ℕ) (τ : Type) where
  hold : Hold n τ := .free
  read : Option String := none

/-- The task has the lock. -/
def Know.locked (k : Know n τ) : Bool :=
  match k.hold with
  | .free => false
  | _ => true

/-- The row that is merged has the model of the row under it, and its vector or one of the model
that was read. -/
structure Brings (defaultModel : String) (k : Know n τ) (m row : CollectionMeta n τ) : Prop where
  model : resolveModel defaultModel row = resolveModel defaultModel m
  vector : ∀ v, row.descriptionEmbedding = some v →
    m.descriptionEmbedding = some v ∨ k.read = some v.model

/-- What a task may ask for. -/
def May (defaultModel : String) (k : Know n τ) : Op n τ → Prop
  | .acquire => k.hold = .free
  | .release | .deleteRow => k.hold ≠ .free
  | .merge false row => ∃ seen, k.hold = .copied seen ∧
      ((∀ m ∈ seen, IsRouted defaultModel m) → IsRouted defaultModel row)
  | .merge true row => ∃ m, k.hold = .copied (some m) ∧ Brings defaultModel k m row
  | _ => True

/-- What the answer says of the lock and the row under it. -/
def holdAfter (hold : Hold n τ) : (op : Op n τ) → Except Raised (Ans op) → Hold n τ
  | .acquire, .ok true => .held
  | .release, _ => .free
  | .getCollectionMeta, .ok row => hold.see row
  | .readMetaUnlocked, .ok row => hold.see row
  | .merge _ row, .ok _ => .copied (some row.stored)
  | .deleteRow, .ok _ => .copied none
  | _, _ => hold

/-- The contract of this module: `May`, any answer, and what is learned. -/
@[reducible] def contract (defaultModel : String) (n : ℕ) (τ : Type) :
    Contract (ops n τ) Raised where
  Know := Know n τ
  May := May defaultModel
  Can _ op r := match r with
    | .ok _ => True
    | .error e => op.mayRaise e = true
  learn k op r := ⟨holdAfter k.hold op r, readAfter defaultModel k.read op r⟩

section Rules

variable {defaultModel : String} {α β : Type} {k : Know n τ}

theorem Know.locked_iff : k.locked = true ↔ k.hold ≠ .free := by
  unfold Know.locked
  split
  next h => simp [h]
  next h => simpa using h

theorem Know.locked_eq_false_iff : k.locked = false ↔ k.hold = .free := by
  rw [← Bool.not_eq_true, k.locked_iff, not_not]

/-- The program ends with the lock, or without it, as said. -/
def Ends (defaultModel : String) (locked : Bool) (p : Program n τ α) (k : Know n τ) : Prop :=
  wp (contract defaultModel n τ) (fun _ k' => k'.locked = locked) (fun _ k' => k'.locked = locked)
    p k

/-- It ends so if it begins so. -/
def Stays (defaultModel : String) (locked : Bool) (p : Program n τ α) : Prop :=
  ∀ k, k.locked = locked → Ends defaultModel locked p k

variable {locked : Bool} {p : Program n τ α} {f : α → Program n τ β}

theorem Ends.bind (hp : Ends defaultModel locked p k)
    (hf : ∀ a, Stays defaultModel locked (f a)) : Ends defaultModel locked (p >>= f) k :=
  wp_bind.mpr (wp_mono hp (fun a k' hk' => hf a k' hk') fun _ _ hk' => hk')

theorem Stays.bind (hp : Stays defaultModel locked p)
    (hf : ∀ a, Stays defaultModel locked (f a)) : Stays defaultModel locked (p >>= f) :=
  fun k hk => (hp k hk).bind hf

theorem stays_pure {a : α} : Stays defaultModel locked (pure a : Program n τ α) := fun _ hk => hk

theorem stays_raise {e : Raised} :
    Stays defaultModel locked (Async.raise e : Program n τ α) := fun _ hk => hk

theorem Stays.tryCatch {h : Raised → Program n τ α}
    (hp : Stays defaultModel locked p) (hh : ∀ e, Stays defaultModel locked (h e)) :
    Stays defaultModel locked (Async.tryCatch p h) :=
  fun k hk => wp_tryCatch.mpr (wp_mono (hp k hk) (fun _ _ hk' => hk') fun e k' hk' => hh e k' hk')

theorem Stays.attempt (hp : Stays defaultModel locked p) :
    Stays defaultModel locked (attempt p) := by
  intro k hk
  refine wp_attempt.mpr (wp_mono (hp k hk) (fun _ _ hk' => hk') fun e k' hk' => ?_)
  cases e with
  | error typeName => exact hk'
  | cancelled => exact hk'

/-- The operation has nothing to do with the lock or with a write of the row. -/
def IsQuiet : Op n τ → Prop
  | .acquire | .release | .deleteRow | .merge _ _ => False
  | _ => True

variable {op : Op n τ}

theorem IsQuiet.may (h : IsQuiet op) : May defaultModel k op := by
  cases op <;> trivial

theorem IsQuiet.keeps (h : IsQuiet op) (r : Except Raised (Ans op)) :
    (Know.mk (holdAfter k.hold op r) (readAfter defaultModel k.read op r)).locked = k.locked := by
  obtain ⟨hold, read⟩ := k
  cases op with
  | acquire => exact h.elim
  | release => exact h.elim
  | deleteRow => exact h.elim
  | merge counted row => exact h.elim
  | getCollectionMeta => cases r <;> cases hold <;> rfl
  | readMetaUnlocked => cases r <;> cases hold <;> rfl
  | _ => rfl

theorem stays_ask (op : Op n τ) (hop : IsQuiet op) : Stays defaultModel locked (ask op) := by
  intro k hk
  exact wp_perform hop.may (fun a _ => (hop.keeps _).trans hk) fun e _ => (hop.keeps _).trans hk

theorem wp_ask_bind {f : Ans op → Program n τ α} {Q : α → Know n τ → Prop}
    {E : Raised → Know n τ → Prop} (hm : May defaultModel k op)
    (hok : ∀ a, wp (contract defaultModel n τ) Q E (f a)
      ⟨holdAfter k.hold op (.ok a), readAfter defaultModel k.read op (.ok a)⟩)
    (herr : ∀ e, op.mayRaise e = true →
      E e ⟨holdAfter k.hold op (.error e), readAfter defaultModel k.read op (.error e)⟩) :
    wp (contract defaultModel n τ) Q E (ask op >>= f) k :=
  wp_bind.mpr (wp_perform hm (fun a _ => hok a) fun e he => herr e he)

/-- **The rule of the lock.** -/
theorem ends_withLock {busy body : Program n τ α} (hk : k.locked = false)
    (hbusy : Stays defaultModel false busy)
    (hbody : Ends defaultModel true body { k with hold := .held }) :
    Ends defaultModel false (withLock busy body) k := by
  have hfr := Know.locked_eq_false_iff.mp hk
  refine wp_ask_bind hfr ?_ fun e _ => ?_
  swap
  · exact hk
  rintro (_ | _)
  · exact hbusy k hk
  · refine wp_andFinally.mpr (wp_mono hbody ?_ ?_)
    · intro a k' hk'
      exact wp_perform (Know.locked_iff.mp hk') (fun _ _ => rfl) fun _ _ => rfl
    · intro e k' hk'
      exact wp_perform (Know.locked_iff.mp hk') (fun _ _ => rfl) fun _ _ => rfl

theorem stays_withLock {busy body : Program n τ α} (hbusy : Stays defaultModel false busy)
    (hbody : Stays defaultModel true body) : Stays defaultModel false (withLock busy body) :=
  fun _ hk => ends_withLock hk hbusy (hbody _ rfl)

/-- The row that was read under the lock is this one. -/
theorem ends_readMetaUnlocked_bind {f : Option (CollectionMeta n τ) → Program n τ α}
    (hk : k.locked = true)
    (hf : ∀ row, Ends defaultModel true (f row) { k with hold := .copied row }) :
    Ends defaultModel true (ask .readMetaUnlocked >>= f) k := by
  refine wp_ask_bind trivial (fun row => ?_) fun _ _ => hk
  have hsee : k.hold.see row = .copied row := by
    cases hho : k.hold with
    | free => exact absurd hho (Know.locked_iff.mp hk)
    | held => rfl
    | copied read => rfl
  change Ends defaultModel true (f row) ⟨k.hold.see row, k.read⟩
  rw [hsee]
  exact hf row

theorem stays_lockedCollectionMeta {body : Option (CollectionMeta n τ) → Program n τ α}
    (hbody : ∀ row read, Ends defaultModel true (body row) ⟨.copied row, read⟩) :
    Stays defaultModel false (lockedCollectionMeta body) := by
  refine fun k hk => ends_withLock hk stays_raise ?_
  exact wp_ask_bind trivial (fun row => hbody row _) fun _ _ => rfl

end Rules

/-! ### Writes that bring no vector -/

section Carried

variable {defaultModel : String} {α : Type} {k : Know n τ} {row row' : CollectionMeta n τ}

/-- The row that a function goes on with is routed if the one that was read or written last is. -/
def Follows (defaultModel : String) (row : CollectionMeta n τ) (k : Know n τ) : Prop :=
  ∃ seen, k.hold = .copied seen ∧
    ((∀ m ∈ seen, IsRouted defaultModel m) → IsRouted defaultModel row)

theorem Follows.locked (h : Follows defaultModel row k) : k.locked = true := by
  obtain ⟨seen, hho, -⟩ := h
  exact Know.locked_iff.mpr (by simp [hho])

variable {read : Option String}

theorem follows_copied :
    Follows defaultModel row ⟨.copied (some row), read⟩ :=
  ⟨some row, rfl, fun hseen => hseen row rfl⟩

theorem Follows.wp_writeMetaUnlocked (h : Follows defaultModel row k)
    (himp : IsRouted defaultModel row → IsRouted defaultModel row') :
    wp (contract defaultModel n τ) (fun _ => Follows defaultModel row')
      (fun _ k' => k'.locked = true) (writeMetaUnlocked false row') k := by
  obtain ⟨seen, hho, hr⟩ := h
  refine wp_ask_bind ⟨seen, hho, fun hseen => himp (hr hseen)⟩ (fun _ => ?_) fun e _ => ?_
  · have hfol : Follows defaultModel row' ⟨.copied (some row'.stored), k.read⟩ :=
      ⟨some row'.stored, rfl, fun hseen => (hseen _ rfl).congr rfl rfl⟩
    refine wp_bind.mpr (wp_pure.mpr ?_)
    exact wp_perform (C := contract defaultModel n τ) trivial (fun _ _ => hfol)
      fun _ _ => hfol.locked
  · exact Know.locked_iff.mpr (by simp [holdAfter, hho])

theorem Follows.ends_writeMetaUnlocked (h : Follows defaultModel row k)
    (himp : IsRouted defaultModel row → IsRouted defaultModel row') :
    Ends defaultModel true (writeMetaUnlocked false row') k :=
  wp_mono (h.wp_writeMetaUnlocked himp) (fun _ _ h => h.locked) fun _ _ h => h

theorem Follows.wp_switchModel (h : Follows defaultModel row k) (requested : String)
    (staleCleared : Bool) :
    wp (contract defaultModel n τ) (fun row' => Follows defaultModel row')
      (fun _ k' => k'.locked = true) (switchModel row requested staleCleared) k := by
  unfold switchModel
  split_ifs
  · exact wp_bind.mpr (h.wp_writeMetaUnlocked id)
  · exact wp_bind.mpr (wp_pure.mpr (wp_pure.mpr h))
  · exact wp_bind.mpr (h.wp_writeMetaUnlocked fun hr => hr.congr rfl rfl)
  · refine wp_ask_bind trivial (fun chunkCount => ?_) fun _ _ => h.locked
    split_ifs
    · exact wp_bind.mpr (h.wp_writeMetaUnlocked fun hr => hr.congr rfl rfl)
    · -- the model switches, and the vector goes
      exact wp_bind.mpr (h.wp_writeMetaUnlocked fun _ => isRouted_of_none rfl)

theorem Follows.ends_patchTtl (h : Follows defaultModel row k) (ttl : Option (Option ℕ))
    (staleCleared : Bool) : Ends defaultModel true (patchTtl row ttl staleCleared) k := by
  unfold patchTtl
  split
  · exact h.ends_writeMetaUnlocked fun hr => hr.congr rfl rfl
  · split_ifs
    · exact h.ends_writeMetaUnlocked id
    · exact h.locked

theorem follows_new {seen : Option (CollectionMeta n τ)}
    (hvec : row.descriptionEmbedding = none) :
    Follows defaultModel row ⟨.copied seen, read⟩ :=
  ⟨seen, rfl, fun _ => isRouted_of_none hvec⟩

theorem stays_deleteCollectionMeta :
    Stays defaultModel true (deleteCollectionMeta : Program n τ Unit) := by
  refine (stays_ask .getCollectionMeta trivial).bind fun row => ?_
  cases row with
  | none => exact stays_pure
  | some m =>
    intro k hk
    refine Ends.bind ?_ fun _ => stays_ask .bumpDescriptionVersion trivial
    exact wp_perform (C := contract defaultModel n τ) (Know.locked_iff.mp hk) (fun _ _ => rfl)
      fun _ _ => hk

theorem stays_touchLastIndexed (lastIndexed : τ) :
    Stays defaultModel false (touchLastIndexed lastIndexed : Program n τ Unit) := by
  refine fun k hk => ends_withLock hk stays_pure ?_
  refine ends_readMetaUnlocked_bind rfl fun row => ?_
  cases row with
  | none => exact wp_pure.mpr rfl
  | some m => exact follows_copied.ends_writeMetaUnlocked fun hm => hm.congr rfl rfl

theorem follows_updateMetaOnAdd (existing : Option (CollectionMeta n τ))
    (batch : List (Store.Centroid.Vec n)) (distinctDocCount : ℕ) (model : String) :
    Follows defaultModel (updateMetaOnAdd existing batch distinctDocCount model)
      ⟨.copied existing, read⟩ := by
  cases existing with
  | none => exact follows_new rfl
  | some m =>
    refine ⟨some m, rfl, fun hm => (hm m rfl).congr rfl ?_⟩
    simp only [updateMetaOnAdd, map_some, Store.Centroid.updateMetaOnAdd]
    split_ifs <;> rfl

theorem stays_ingestChunks (model : Option String) (batch : List (Store.Centroid.Vec n))
    (distinctDocCount : ℕ) : Stays defaultModel false
      (ingestChunks model batch distinctDocCount : Program n τ Unit) := by
  refine fun k hk => ends_withLock hk stays_raise ?_
  refine ends_readMetaUnlocked_bind rfl fun owned => ?_
  cases model with
  | none => exact stays_ask .writeChunks trivial _ rfl
  | some model =>
    cases owned with
    | some m =>
      refine Ends.bind (stays_ask .writeChunks trivial _ rfl) fun _ k hk => ?_
      refine ends_readMetaUnlocked_bind hk fun existing => ?_
      exact Follows.ends_writeMetaUnlocked (follows_updateMetaOnAdd _ _ _ _) id
    | none =>
      refine wp_bind.mpr (wp_mono ((follows_new rfl).wp_writeMetaUnlocked id) ?_ fun _ _ h => h)
      rintro - k hfol
      refine wp_bind.mpr (wp_tryCatch.mpr ?_)
      refine wp_perform (C := contract defaultModel n τ) trivial (fun _ _ => ?_) fun e _ => ?_
      · exact Follows.ends_writeMetaUnlocked hfol fun _ => isRouted_of_none rfl
      · exact wp_bind.mpr (wp_mono (stays_deleteCollectionMeta.attempt _ hfol.locked)
          (fun _ _ hk => hk) fun _ _ hk => hk)

theorem stays_deleteDocument :
    Stays defaultModel false (deleteDocument : Program n τ Unit) := by
  refine stays_withLock stays_raise ?_
  refine (stays_ask .readVectors trivial).bind fun deleted => ?_
  refine (stays_ask .writeChunks trivial).bind fun _ => ?_
  split_ifs
  · exact stays_pure
  · intro k hk
    refine ends_readMetaUnlocked_bind hk fun row => ?_
    cases row with
    | none => exact wp_pure.mpr rfl
    | some m =>
      refine wp_ask_bind trivial (fun now => ?_) fun _ _ => rfl
      refine follows_copied.ends_writeMetaUnlocked fun hm => hm.congr rfl ?_
      simp only [Store.Centroid.subtractMetaOnDelete]
      split_ifs <;> rfl

theorem stays_deleteCollection :
    Stays defaultModel false (deleteCollection : Program n τ Unit) :=
  stays_withLock stays_raise stays_deleteCollectionMeta

end Carried

/-! ### Writes that may bring one -/

section Brought

variable [DecidableEq τ] {defaultModel : String} {k : Know n τ}

omit [DecidableEq τ] in
/-- A vector that is embedded is one of the model that embeds. -/
theorem wp_embed {model text : String} :
    wp (contract defaultModel n τ) (fun vector k' => k' = k ∧ ∀ v ∈ vector, v.model = model)
      (fun _ k' => k' = k) (embed model text) k := by
  refine wp_bind.mpr (wp_attempt.mpr ?_)
  refine wp_perform (C := contract defaultModel n τ) trivial (fun storable _ => ?_) fun e _ => ?_
  · cases storable with
    | false => exact ⟨rfl, fun v hv => by cases hv⟩
    | true => exact ⟨rfl, fun v hv => by cases hv; rfl⟩
  · cases e with
    | error typeName => exact ⟨rfl, fun v hv => by cases hv⟩
    | cancelled => rfl

/-- **The guarded write**, of a vector of the model that was told. -/
theorem ends_writeDescription {fields : DescriptionFields τ} {guard : Option (ExpectedState τ)}
    (hk : k.locked = false)
    (hvec : ∀ v, fields.descriptionEmbedding = .set v → k.read = some v.model) :
    Ends defaultModel false (writeDescription fields guard) k := by
  refine ends_withLock hk stays_pure (ends_readMetaUnlocked_bind rfl fun row => ?_)
  cases row with
  | none => exact wp_pure.mpr rfl
  | some m =>
    dsimp only
    split
    · exact wp_pure.mpr rfl
    refine Ends.bind (wp_ask_bind ⟨m, rfl, rfl, fun v hv => ?_⟩ (fun _ => ?_) fun _ _ => rfl)
      fun _ => stays_pure
    · cases hchan : fields.descriptionEmbedding with
      | keep =>
        rw [DescriptionFields.applyTo, hchan] at hv
        exact Or.inl hv
      | clear =>
        rw [DescriptionFields.applyTo, hchan] at hv
        cases hv
      | set w =>
        rw [DescriptionFields.applyTo, hchan] at hv
        obtain rfl : w = v := some.inj hv
        exact Or.inr (hvec w hchan)
    · exact Stays.bind (stays_ask .bumpDescriptionVersion trivial)
        (fun _ => stays_ask .deleteLegacy trivial) _ rfl

/-- **The description writer** tells the model of the row that it reads first. -/
theorem stays_applyText (text : String) (source : DescriptionSource)
    (baseline : FieldChange ℕ) (guard : Option (ExpectedState τ)) :
    Stays defaultModel false
      (applyText defaultModel text source baseline guard : Program n τ WriteResult) := by
  intro k hk
  unfold applyText
  split_ifs with hchk
  swap
  · exact stays_raise k hk
  have hq : IsQuiet (.getCollectionMeta : Op n τ) := trivial
  refine wp_ask_bind trivial (fun row => ?_) fun _ _ => hk
  have hfr := (@IsQuiet.keeps n τ defaultModel k _ hq (.ok row)).trans hk
  cases row with
  | none => exact stays_pure _ hfr
  | some row =>
    refine wp_bind.mpr (wp_mono wp_embed ?_ fun _ k' hk' => hk' ▸ hfr)
    rintro vector _ ⟨rfl, hvec⟩
    refine wp_ask_bind trivial (fun now => ?_) fun _ _ => hfr
    refine Ends.bind (ends_writeDescription hfr fun v hv => ?_) fun _ => stays_pure
    cases vector with
    | none => cases hv
    | some w =>
      obtain rfl : w = v := FieldChange.set.inj hv
      exact congrArg some (hvec w rfl).symm

theorem stays_apply (change : DescriptionChange τ) :
    Stays defaultModel false (apply defaultModel change : Program n τ WriteResult) := by
  cases change with
  | clear =>
    intro k hk
    exact Ends.bind (ends_writeDescription hk fun v hv => by cases hv) fun _ => stays_pure
  | generated text count expected => exact stays_applyText text _ _ _
  | manualSet text => exact stays_applyText text _ _ _
  | imported text source => exact stays_applyText text source _ _

theorem stays_recordFailure (expected : ExpectedState τ) : Stays defaultModel false
    (recordFailure expected : Program n τ DescriptionWriteOutcome) :=
  fun _ hk => ends_writeDescription hk fun v hv => by cases hv

/-! ### Generation runs -/

omit [DecidableEq τ] in
theorem stays_readRowLoop : ∀ (attempts : ℕ) (row : Option (CollectionMeta n τ)),
    Stays defaultModel false (readRowLoop attempts row)
  | 0, _ => stays_pure
  | attempts + 1, _ => by
    refine (stays_ask .takeVersion trivial).bind fun _ => ?_
    refine (stays_ask .readRow trivial).bind fun row => ?_
    refine (stays_ask .versionHolds trivial).bind fun holds => ?_
    cases holds with
    | true => exact stays_pure
    | false => exact stays_readRowLoop attempts row

omit [DecidableEq τ] in
theorem stays_draft (kind : GenerationKind) : Stays defaultModel false
    (draft kind : Program n τ (GenerationSettlement ⊕ Draft τ)) := by
  refine (stays_ask .granted trivial).bind fun _ => ?_
  refine (stays_readRowLoop rowReadAttempts none).bind fun row => ?_
  cases row with
  | none => exact stays_pure
  | some row =>
    dsimp only
    split
    · exact stays_pure
    · refine Stays.bind ?_ fun _ => stays_pure
      refine (stays_ask .generate trivial).attempt.bind fun outcome => ?_
      cases outcome <;> exact stays_pure

theorem stays_recordFailureOf (expected : ExpectedState τ) (reason : DescriptionFailureReason)
    (detail : String) : Stays defaultModel false
      (recordFailureOf expected reason detail : Program n τ GenerationSettlement) := by
  refine (stays_recordFailure expected).attempt.bind fun recorded => ?_
  cases recorded with
  | error typeName => exact (stays_ask .rememberUnstoredFailure trivial).bind fun _ => stays_pure
  | ok recorded =>
    dsimp only
    split_ifs
    · exact (stays_ask .rememberUnstoredFailure trivial).bind fun _ => stays_pure
    · exact stays_pure.bind fun _ => stays_pure

theorem stays_land (draft : Draft τ) : Stays defaultModel false
    (land defaultModel draft : Program n τ GenerationSettlement) := by
  unfold land
  split
  · exact stays_recordFailureOf _ _ _
  · refine Stays.bind (Stays.attempt (stays_apply _)) fun written => ?_
    cases written with
    | error typeName => exact stays_recordFailureOf _ _ _
    | ok written =>
      dsimp only
      split
      · exact stays_recordFailureOf _ _ _
      · exact stays_pure

theorem stays_runGeneration (kind : GenerationKind) :
    Stays defaultModel false (runGeneration defaultModel kind : Program n τ Unit) := by
  refine Stays.bind (Stays.tryCatch ?_ fun _ => stays_pure) fun settlement =>
    stays_ask (.finish settlement) trivial
  refine Stays.bind (Stays.attempt ((stays_draft kind).bind fun drafted => ?_)) fun settled => ?_
  · cases drafted with
    | inl settlement => exact stays_pure
    | inr drafted => exact stays_land drafted
  · cases settled with
    | ok settlement => exact stays_pure
    | error typeName =>
      exact (stays_ask .rememberUnstoredFailure trivial).bind fun _ => stays_pure

/-! ### The other writers -/

section
omit [DecidableEq τ]

theorem wp_legacyDescriptionVector {embedder : String} {row : Option (CollectionMeta n τ)} :
    wp (contract defaultModel n τ) (fun vector k' => k' = k ∧ ∀ v ∈ vector, v.model = embedder)
      (fun _ k' => k' = k) (legacyDescriptionVector defaultModel embedder row) k := by
  have hn : k = k ∧ ∀ v ∈ (none : Option Embedding), v.model = embedder :=
    ⟨rfl, fun v hv => by cases hv⟩
  unfold legacyDescriptionVector
  split
  · exact hn
  · split
    · exact hn
    · split_ifs
      · exact hn
      · exact wp_embed

theorem stays_recomputeCollectionMeta (embedder : String) (force : Bool) :
    Stays defaultModel false
      (recomputeCollectionMeta defaultModel embedder force : Program n τ Unit) := by
  refine (stays_ask .getCollectionMeta trivial).bind fun existing => ?_
  split_ifs
  · exact stays_pure
  refine (stays_ask .readVectors trivial).bind fun vectors => ?_
  split_ifs
  · exact stays_pure
  refine (stays_ask .count trivial).bind fun docCount k hk => ?_
  refine wp_bind.mpr (wp_mono wp_legacyDescriptionVector ?_ fun _ k' hk' => hk' ▸ hk)
  rintro legacy _ ⟨rfl, hleg⟩
  refine stays_lockedCollectionMeta (fun locked read => ?_) _ hk
  have hfol : Follows defaultModel (locked.getD { activeEmbeddingModel := embedder })
      (⟨.copied locked, read⟩ : Know n τ) := by
    cases locked with
    | none => exact follows_new rfl
    | some m => exact follows_copied
  dsimp only
  split_ifs
  · exact wp_pure.mpr rfl
  · exact wp_pure.mpr rfl
  · exact hfol.ends_writeMetaUnlocked fun hbase => hbase.repaired hleg rfl rfl
  · refine wp_ask_bind trivial (fun now => ?_) fun _ _ => rfl
    exact hfol.ends_writeMetaUnlocked fun hbase => hbase.repaired hleg rfl rfl

/-- Whether the job named is active, if one is named. -/
theorem wp_ite_jobIsActive {named other : Bool} {α : Type} {f : Bool → Program n τ α}
    {locked : Bool} (hk : k.locked = locked)
    (hf : ∀ active, Ends defaultModel locked (f active) k) :
    Ends defaultModel locked ((if named then ask .jobIsActive else pure other) >>= f) k := by
  split_ifs
  · exact wp_ask_bind trivial (fun active => hf active) fun _ _ => hk
  · exact hf other

theorem stays_patchCollection (model : Option (Option String)) (ttl : Option (Option ℕ)) :
    Stays defaultModel false (patchCollection model ttl : Program n τ Unit) := by
  refine stays_lockedCollectionMeta fun row read => ?_
  cases row with
  | none => exact wp_raise.mpr rfl
  | some row =>
    have hr : Follows defaultModel row (⟨.copied (some row), read⟩ : Know n τ) := follows_copied
    have hclear : Follows defaultModel { row with reindexJobId := none }
        (⟨.copied (some row), read⟩ : Know n τ) :=
      ⟨some row, rfl, fun hseen => (hseen row rfl).congr rfl rfl⟩
    cases model with
    | none =>
      refine wp_ite_jobIsActive rfl fun active => ?_
      cases active with
      | true => exact hr.ends_patchTtl ttl false
      | false => exact hclear.ends_patchTtl ttl true
    | some requested =>
      cases requested with
      | none => exact hr.ends_patchTtl ttl false
      | some requested =>
        refine wp_ite_jobIsActive rfl fun active => ?_
        cases active with
        | true => exact wp_pure.mpr rfl
        | false =>
          exact wp_bind.mpr (wp_mono (hclear.wp_switchModel requested _)
            (fun _ _ hr' => hr'.ends_patchTtl ttl false) fun _ _ hk => hk)

theorem stays_ensureMetaRow (model : String) :
    Stays defaultModel false (ensureMetaRow model : Program n τ Bool) := by
  refine stays_lockedCollectionMeta fun row read => ?_
  cases row with
  | some m => exact wp_pure.mpr rfl
  | none => exact Ends.bind ((follows_new rfl).ends_writeMetaUnlocked id) fun _ => stays_pure

theorem stays_removeBareMetaRow :
    Stays defaultModel false (removeBareMetaRow : Program n τ Unit) := by
  refine Stays.bind (Stays.attempt ?_) fun _ => stays_pure
  refine stays_lockedCollectionMeta fun row read => ?_
  cases row with
  | none => exact wp_pure.mpr rfl
  | some m =>
    dsimp only
    split_ifs
    · exact stays_deleteCollectionMeta _ rfl
    · exact wp_pure.mpr rfl

end

theorem stays_restoreDescription (model text : String) (source : DescriptionSource) :
    Stays defaultModel false
      (restoreDescription defaultModel model text source : Program n τ Unit) := by
  unfold restoreDescription
  split_ifs
  · exact stays_pure
  refine (stays_ensureMetaRow model).bind fun created => ?_
  have hundo : Stays defaultModel false
      (if created then removeBareMetaRow else pure () : Program n τ Unit) := by
    split_ifs
    · exact stays_removeBareMetaRow
    · exact stays_pure
  refine Stays.bind (Stays.tryCatch (stays_apply _) fun e => hundo.bind fun _ => stays_raise)
    fun result => ?_
  split
  · exact stays_pure
  · exact hundo.bind fun _ => stays_raise
  · exact hundo

omit [DecidableEq τ] in
theorem stays_updateCollection (requested : String) (refused jobStore : Bool) :
    Stays defaultModel false (updateCollection requested refused jobStore : Program n τ Unit) := by
  refine (stays_ask .getCollectionMeta trivial).bind fun found => ?_
  cases found with
  | none => exact stays_raise
  | some m =>
    dsimp only
    split_ifs
    · exact stays_raise
    refine stays_lockedCollectionMeta fun row read => ?_
    cases row with
    | none => exact wp_raise.mpr rfl
    | some row =>
      refine wp_ite_jobIsActive rfl fun active => ?_
      cases active with
      | true => exact wp_raise.mpr rfl
      | false =>
        have hclear (named : Bool) : Follows defaultModel
            (if named then { row with reindexJobId := none } else row)
            (⟨.copied (some row), read⟩ : Know n τ) :=
          ⟨some row, rfl, fun hseen => (hseen row rfl).congr (by split_ifs <;> rfl)
            (by split_ifs <;> rfl)⟩
        exact wp_bind.mpr (wp_mono ((hclear _).wp_switchModel requested _)
          (fun _ _ hr' => hr'.locked) fun _ _ hk => hk)

omit [DecidableEq τ] in
theorem stays_promoteModel (jobId : String) (targetModel : Option String) (scanned : Bool) :
    Stays defaultModel false (promoteModel jobId targetModel scanned : Program n τ Unit) := by
  refine Stays.bind (Stays.attempt ?_) fun _ => stays_pure
  refine stays_lockedCollectionMeta fun row read => ?_
  cases row with
  | none => exact wp_pure.mpr rfl
  | some row =>
    have hclear (hr : IsRouted defaultModel row) : IsRouted defaultModel
        (if row.reindexJobId = some jobId then { row with reindexJobId := none } else row) :=
      hr.congr (by split_ifs <;> rfl) (by split_ifs <;> rfl)
    dsimp only
    cases targetModel with
    | none => exact follows_copied.ends_writeMetaUnlocked hclear
    | some target =>
      refine follows_copied.ends_writeMetaUnlocked fun hr => ?_
      cases scanned with
      | true => exact (hclear hr).promoted target
      | false => exact hclear hr

/-- **Every task keeps to the contract.** -/
theorem stays_program (task : Task n τ) :
    Stays defaultModel false (task.program defaultModel) := by
  cases task with
  | update requested refused jobStore => exact stays_updateCollection requested refused jobStore
  | promote jobId targetModel scanned => exact stays_promoteModel jobId targetModel scanned
  | call c =>
    cases c with
    | set text => exact (stays_apply _).bind fun _ => stays_pure
    | clear => exact (stays_apply _).bind fun _ => stays_pure
    | restore model text source => exact stays_restoreDescription model text source
    | recordFailure expected => exact (stays_recordFailure expected).bind fun _ => stays_pure
    | generation kind => exact stays_runGeneration kind
    | recompute embedder force => exact stays_recomputeCollectionMeta embedder force
    | touch lastIndexed => exact stays_touchLastIndexed lastIndexed
    | ingest model batch count => exact stays_ingestChunks model batch count
    | deleteDocument => exact stays_deleteDocument
    | patch model ttl => exact stays_patchCollection model ttl
    | deleteCollection => exact stays_deleteCollection

end Brought

/-! ### What always holds -/

/-- What a task knows is so: who has the lock, the row under it, the model that was read. -/
structure Tied (w : Watched ι n τ) (i : ι) (k : Know n τ) : Prop where
  unstarted : w.task i = none → k = {}
  holder : k.hold ≠ .free ↔ w.world.holder = some i
  copied : ∀ row, k.hold = .copied row → w.world.row = row
  read : w.read i = k.read

section Steps

variable [DecidableEq ι] [DecidableEq τ] {defaultModel : String} {i : ι} {w w' : World ι n τ}

omit [DecidableEq ι] in
/-- What is known of the lock here is what the other contract says. -/
theorem holdAfter_eq (k : Descriptions.Know n τ) (op : Op n τ) (r : Except Raised (Ans op)) :
    holdAfter k.hold op r = (learn k op r).hold := by
  cases op with
  | acquire =>
    cases r with
    | error e => rfl
    | ok acquired => cases acquired <;> rfl
  | _ => cases r <;> rfl

variable {op : Op n τ} {r : Except Raised (Ans op)} {k : Know n τ}

/-- **What an operation does to the lock and the row**, for the one who asks for it. -/
theorem holdAfter_of_did
    (hhol : k.hold ≠ .free ↔ w.holder = some i)
    (hcop : ∀ row, k.hold = .copied row → w.row = row) (hm : May defaultModel k op)
    (hdid : Did i w op r w') :
    (holdAfter k.hold op r ≠ .free ↔ w'.holder = some i) ∧
      ∀ row, holdAfter k.hold op r = .copied row → w'.row = row := by
  have hsee : (k.hold.see w.row ≠ .free ↔ w.holder = some i) ∧
      ∀ row, k.hold.see w.row = .copied row → w.row = row := by
    refine ⟨Hold.see_ne_free.trans hhol, fun row hr => ?_⟩
    cases hho : k.hold with
    | free => simp [hho, Hold.see] at hr
    | held => simpa [hho, Hold.see] using hr
    | copied read => simpa [hho, Hold.see] using hr
  cases hdid with
  | nothing hlearn =>
    have hho := holdAfter_eq { call := none, hold := k.hold } op r
    rw [hlearn] at hho
    rw [hho]
    exact ⟨hhol, hcop⟩
  | read => exact hsee
  | readMetaUnlocked => exact hsee
  | acquired hfr => exact ⟨by simp [holdAfter], fun row hr => by cases hr⟩
  | released => exact ⟨by simp [holdAfter], fun row hr => by cases hr⟩
  | merged counted row =>
    have hh : w.holder = some i := by
      refine hhol.mp ?_
      cases counted with
      | false =>
        obtain ⟨seen, hho, -⟩ := hm
        simp [hho]
      | true =>
        obtain ⟨m, hho, -⟩ := hm
        simp [hho]
    cases counted with
    | false => exact ⟨iff_of_true (by simp [holdAfter]) hh, fun _ hr => Hold.copied.inj hr⟩
    | true => exact ⟨iff_of_true (by simp [holdAfter]) hh, fun _ hr => Hold.copied.inj hr⟩
  | deleted =>
    exact ⟨iff_of_true (by simp [holdAfter]) (hhol.mp hm), fun _ hr => Hold.copied.inj hr⟩
  | _ => exact ⟨hhol, hcop⟩

/-- For the others, nothing changes while they hold the lock. -/
theorem frame_of_did {j : ι}
    (hj : j ≠ i) (hhol : k.hold ≠ .free ↔ w.holder = some i) (hm : May defaultModel k op)
    (hdid : Did i w op r w') :
    (w'.holder = some j ↔ w.holder = some j) ∧ (w.holder = some j → w'.row = w.row) := by
  have hoth (hh : k.hold ≠ .free) : w.holder ≠ some j := by
    rw [hhol.mp hh]
    exact fun heq => hj (some.inj heq).symm
  cases hdid with
  | acquired hfr =>
    refine ⟨iff_of_false (fun heq => hj (some.inj heq).symm) ?_, fun _ => rfl⟩
    rw [hfr]
    simp
  | released => exact ⟨iff_of_false (by simp) (hoth hm), fun _ => rfl⟩
  | merged counted row =>
    cases counted with
    | false =>
      obtain ⟨seen, hho, -⟩ := hm
      exact ⟨Iff.rfl, fun hh => absurd hh (hoth (by simp [hho]))⟩
    | true =>
      obtain ⟨m, hho, -⟩ := hm
      exact ⟨Iff.rfl, fun hh => absurd hh (hoth (by simp [hho]))⟩
  | deleted => exact ⟨Iff.rfl, fun hh => absurd hh (hoth hm)⟩
  | _ => exact ⟨Iff.rfl, fun _ => rfl⟩

/-- What holds of a state: everybody keeps to the contract with what is known, and nobody runs
who has not been started. -/
structure Coherent (defaultModel : String) (s : State ι n τ) : Prop where
  kept : Kept (contract defaultModel n τ) (fun w know => ∀ i, Tied w i (know i)) s
  unstarted : ∀ i, s.1.task i = none → s.2 i = .ret ()

omit [DecidableEq ι] [DecidableEq τ] in
theorem coherent_init {row : Option (CollectionMeta n τ)} :
    Coherent defaultModel (State.init row : State ι n τ) := by
  refine ⟨⟨fun _ => {}, fun i => ?_, fun _ => trivial⟩, fun _ _ => rfl⟩
  exact ⟨fun _ => rfl, by simp [State.init, World.init], fun row hr => (by cases hr), rfl⟩

omit [DecidableEq ι] [DecidableEq τ] in
theorem Coherent.task_ne_none {s : State ι n τ} (h : Coherent defaultModel s)
    (hasks : (s.2 i).asks = some op) : s.1.task i ≠ none := by
  intro hn
  rw [h.unstarted i hn] at hasks
  cases hasks

theorem Watched.exec_eq_some {w w' : Watched ι n τ} {reply : Reply n τ}
    (h : w.exec defaultModel i op reply = some (r, w')) :
    w.world.exec i op reply = some (r, w'.world) ∧ w'.task = w.task ∧
      w'.read = update w.read i (readAfter defaultModel (w.read i) op r) := by
  obtain ⟨⟨r', t⟩, hexec, heq⟩ := map_eq_some_iff.mp h
  cases heq
  exact ⟨hexec, rfl, rfl⟩

omit [DecidableEq τ] in
theorem Watched.holder_accept (w : Watched ι n τ) (i : ι) (task : Task n τ) :
    (w.accept i task).world.holder = w.world.holder := by
  cases task <;> rfl

omit [DecidableEq τ] in
theorem Watched.row_accept (w : Watched ι n τ) (i : ι) (task : Task n τ) :
    (w.accept i task).world.row = w.world.row := by
  cases task <;> rfl

variable {s s' : State ι n τ} {e : Event ι n τ}

theorem step_cases (h : step defaultModel s e = some s') :
    (∃ i task, e = .start i task ∧ s.1.task i = none ∧
      s' = (s.1.accept i task, update s.2 i (task.program defaultModel))) ∨
    ∃ i reply, e = .step i reply ∧ advance (Watched.exec defaultModel) s i reply = some s' := by
  cases e with
  | start i task =>
    simp only [step] at h
    split_ifs at h with hacc
    have hn : (s.1.task i).isNone = true := (Bool.and_eq_true_iff.mp hacc).1
    exact Or.inl ⟨i, task, rfl, isNone_iff_eq_none.mp hn, (some.inj h).symm⟩
  | step i reply => exact Or.inr ⟨i, reply, rfl, h⟩

/-- **Every event keeps what everybody knows true.** -/
theorem Coherent.step (h : Coherent defaultModel s)
    (hs : Routing.step defaultModel s e = some s') : Coherent defaultModel s' := by
  rcases step_cases hs with ⟨i, task, rfl, hn, rfl⟩ | ⟨i, reply, rfl, hadv⟩
  · obtain ⟨know, hti, hkp⟩ := h.kept
    have hi : know i = {} := (hti i).unstarted hn
    refine ⟨⟨update know i {}, fun j => ?_, fun j => ?_⟩, fun j hj => ?_⟩
    · -- the knowledge is what it was
      rw [← hi, update_eq_self]
      refine ⟨fun hj => ?_, ?_, ?_, (hti j).read⟩
      · by_cases hne : j = i
        · exact hne ▸ hi
        · refine (hti j).unstarted ?_
          simpa [Watched.accept, update_of_ne hne] using hj
      · rw [s.1.holder_accept]
        exact (hti j).holder
      · rw [s.1.row_accept]
        exact (hti j).copied
    · by_cases hne : j = i
      · subst hne
        simpa using (stays_program task {} rfl).keeps
      · simpa [update_of_ne hne] using hkp j
    · by_cases hne : j = i
      · subst hne
        simp [Watched.accept] at hj
      · have hj' : s.1.task j = none := by
          simpa [Watched.accept, update_of_ne hne] using hj
        simpa [update_of_ne hne] using h.unstarted j hj'
  · refine ⟨h.kept.advance hadv fun know op r t hti hasks hm hexec => ?_, fun j hj => ?_⟩
    · obtain ⟨hexec, htask, hrd⟩ := Watched.exec_eq_some hexec
      obtain ⟨hcan, hdid⟩ := did_of_exec hexec
      refine ⟨hcan, fun j => ?_⟩
      by_cases hj : j = i
      · subst hj
        rw [update_self]
        obtain ⟨hho, hcop⟩ := holdAfter_of_did (hti j).holder (hti j).copied hm hdid
        refine ⟨fun hn => ?_, hho, hcop, ?_⟩
        · rw [htask] at hn
          exact absurd hn (h.task_ne_none hasks)
        · rw [hrd, update_self, (hti j).read]
      · rw [update_of_ne hj]
        obtain ⟨hho, hr⟩ := frame_of_did hj (hti i).holder hm hdid
        refine ⟨fun hn => ?_, ?_, fun row hcop => ?_, ?_⟩
        · exact (hti j).unstarted (htask ▸ hn)
        · exact (hti j).holder.trans hho.symm
        · rw [hr ((hti j).holder.mp (by simp [hcop]))]
          exact (hti j).copied row hcop
        · rw [hrd, update_of_ne hj]
          exact (hti j).read
    · obtain ⟨op, f, r, t, htask, hexec, rfl⟩ := advance_eq_some hadv
      rw [(Watched.exec_eq_some hexec).2.1] at hj
      have hne : j ≠ i := by
        rintro rfl
        have hasks : (s.2 j).asks = some op := by rw [htask]; rfl
        exact h.task_ne_none hasks hj
      simpa [update_of_ne hne] using h.unstarted j hj

/-! ### When the vectors are right -/

/-- No new vector lands after the model has changed since its writer read it: the row that is
written has no vector but the one that is stored, unless the model that the writer has been told
is still the one that the collection names. -/
def LandsInTime (defaultModel : String) (s : State ι n τ) : Event ι n τ → Prop
  | .step i .done =>
    match (s.2 i).asks with
    | some (.merge true row) => ∀ m ∈ s.1.world.row, ∀ v ∈ row.descriptionEmbedding,
        m.descriptionEmbedding = some v ∨ s.1.read i = some (resolveModel defaultModel m)
    | _ => True
  | _ => True

instance (defaultModel : String) (s : State ι n τ) (e : Event ι n τ) :
    Decidable (LandsInTime defaultModel s e) := by
  unfold LandsInTime
  split
  · split <;> infer_instance
  · infer_instance

/-- The vector that is stored, if there is one, is one of the model that the collection names. -/
def State.IsRouted (defaultModel : String) (s : State ι n τ) : Prop :=
  ∀ m ∈ s.1.world.row, Routing.IsRouted defaultModel m

/-- **A step that brings no vector late**, and no other, leaves the vector right. -/
theorem Coherent.isRouted_iff (h : Coherent defaultModel s)
    (hst : Routing.step defaultModel s e = some s') (hs : s.IsRouted defaultModel) :
    s'.IsRouted defaultModel ↔ LandsInTime defaultModel s e := by
  rcases step_cases hst with ⟨i, task, rfl, hn, rfl⟩ | ⟨i, reply, rfl, hadv⟩
  · refine iff_of_true ?_ trivial
    unfold State.IsRouted
    rwa [s.1.row_accept]
  obtain ⟨know, hti, hkp⟩ := h.kept
  obtain ⟨op, f, r, t, htask, hexec, rfl⟩ := advance_eq_some hadv
  have hasks : (s.2 i).asks = some op := by rw [htask]; rfl
  have hm : May defaultModel (know i) op := (hkp i).may hasks
  obtain ⟨hexec, -, -⟩ := Watched.exec_eq_some hexec
  by_cases hrep : reply = .done
  swap
  · refine iff_of_true ?_ ?_
    · unfold State.IsRouted
      rwa [row_of_ne_done hexec hrep]
    · cases reply <;> trivial
  subst hrep
  have hdid := (did_of_exec hexec).2
  unfold State.IsRouted at hs ⊢
  simp only [LandsInTime, hasks]
  generalize t.world = w' at hexec hdid
  cases hdid with
  | nothing hlearn =>
    cases op with
    | merge counted row =>
      -- a write that is done tells its row
      obtain rfl : .ok () = r := congrArg Prod.fst (some.inj hexec)
      cases congrArg Descriptions.Know.hold (hlearn { call := none })
    | _ => exact iff_of_true hs trivial
  | merged counted row =>
    cases counted with
    | false =>
      obtain ⟨seen, hho, himp⟩ := hm
      rw [(hti i).copied _ hho] at hs
      refine iff_of_true ?_ trivial
      rintro _ ⟨⟩
      exact (himp hs).stored
    | true =>
      obtain ⟨m, hho, hbrin⟩ := hm
      have hr := (hti i).copied _ hho
      rw [hr] at hs ⊢
      constructor
      · rintro hrout _ ⟨⟩ v hv
        refine (hbrin.vector v hv).imp_right fun hrd => ?_
        rw [(hti i).read, hrd, hrout row.stored rfl v hv, ← hbrin.model]
        rfl
      · rintro hlan _ ⟨⟩
        refine IsRouted.stored fun v hv => ?_
        rw [hbrin.model]
        rcases hlan m rfl v hv with heq | hrd
        · exact hs m rfl v heq
        · rcases hbrin.vector v hv with heq | hmod
          · exact hs m rfl v heq
          · rw [(hti i).read, hmod] at hrd
            exact some.inj hrd
  | deleted =>
    refine iff_of_true ?_ trivial
    rintro _ ⟨⟩
  | _ => exact iff_of_true hs trivial

/-- **The vector is always one of the model of the collection** exactly in the runs in which no
new vector lands after the model has changed since its writer read it. -/
theorem routed_iff_landsInTime (defaultModel : String) (row : Option (CollectionMeta n τ))
    (hrow : ∀ m ∈ row, IsRouted defaultModel m) (es : List (Event ι n τ)) :
    (∀ before after s, es = before ++ after →
        run (Routing.step defaultModel) (State.init row) before = some s →
          ∀ m ∈ s.1.world.row, IsRouted defaultModel m) ↔
      Along (Routing.step defaultModel) (LandsInTime defaultModel) (State.init row) es := by
  have hcoh {es : List (Event ι n τ)} {s : State ι n τ}
      (hr : run (Routing.step defaultModel) (State.init row) es = some s) :
      Coherent defaultModel s :=
    run_invariant (fun _ _ _ h hst => h.step hst) coherent_init hr
  constructor
  · intro h
    refine along_iff.mpr fun before e after s hes hr => ?_
    by_cases hst : ∃ s', Routing.step defaultModel s e = some s'
    · obtain ⟨s', hst⟩ := hst
      refine ((hcoh hr).isRouted_iff hst (h before _ s hes hr)).mp ?_
      refine h (before ++ [e]) after s' (by simpa using hes) ?_
      exact (run_concat_eq_some _).mpr ⟨s, hr, hst⟩
    -- what lands late can be done
    by_contra hlate
    refine hst ?_
    cases e with
    | start i task => exact absurd trivial hlate
    | step i reply =>
      cases reply with
      | done =>
        simp only [LandsInTime] at hlate
        split at hlate
        next row' hasks =>
          cases htask : s.2 i with
          | await op f =>
            rw [htask] at hasks
            obtain rfl : op = .merge true row' := some.inj hasks
            exact ⟨_, by simp [Routing.step, advance, htask, Watched.exec, World.exec]; rfl⟩
          | ret a => rw [htask] at hasks; cases hasks
          | raise e => rw [htask] at hasks; cases hasks
        next => exact absurd trivial hlate
      | _ => exact absurd trivial hlate
  · intro hlan before after s hes hr
    rw [hes] at hlan
    have hinv := run_invariant_along
      (I := fun s => Coherent defaultModel s ∧ s.IsRouted defaultModel)
      (fun s e s' hC hs hst => ⟨hs.1.step hst, (hs.1.isRouted_iff hst hs.2).mpr hC⟩)
      hlan.of_append ⟨coherent_init, hrow⟩ hr
    exact hinv.2

end Steps

/-! ### A model that changes while a text is embedded -/

/-- A description is set, and its first operation answered. -/
def setUp : List (Event Bool 0 ℕ) :=
  [.start false (.call (.set "notes")), .step false .done]

/-- A `PATCH` of the model of a collection without chunks. -/
def switching : List (Event Bool 0 ℕ) :=
  .start true (.call (.patch (some (some "large")) none)) ::
    [.done, .done, .number 0, .done, .done, .done].map (.step true)

/-- The set takes the lock, writes its text and ends. -/
def landing : List (Event Bool 0 ℕ) :=
  [.flag true, .time 0, .done, .done, .done, .done, .done, .done].map (.step false)

/-- **A vector of the model that there was**: the collection names another model when the vector
lands, and the write does not look. -/
theorem misrouted_overtaken :
    ∃ s, run (step "small") (State.init (some (.bare "small"))) (setUp ++ switching ++ landing) =
        some s ∧
      ∃ m ∈ s.1.world.row, m.activeEmbeddingModel = "large" ∧
        m.descriptionEmbedding = some ⟨"small", "notes"⟩ ∧ ¬IsRouted "small" m := by
  show ∃ s ∈ run (step "small") (State.init (some (.bare "small")))
    (setUp ++ switching ++ landing), _
  decide +kernel

/-- One after the other, they leave a vector of the new model. -/
theorem routed_iff_landsInTime_patchedFirst :
    ∃ s, run (step "small") (State.init (some (.bare "small"))) (switching ++ setUp ++ landing) =
        some s ∧
      (s.1.world.row.bind fun m => m.descriptionEmbedding) = some ⟨"large", "notes"⟩ ∧
      ∀ m ∈ s.1.world.row, IsRouted "small" m := by
  obtain ⟨s, hs, hvec⟩ : ∃ s ∈ run (step "small") (State.init (some (.bare "small")))
      (switching ++ setUp ++ landing),
        (s.1.world.row.bind fun m => m.descriptionEmbedding) = some ⟨"large", "notes"⟩ := by
    decide +kernel
  have hr : ∀ m ∈ some (CollectionMeta.bare "small" : CollectionMeta 0 ℕ),
      IsRouted "small" m := by decide
  refine ⟨s, hs, hvec, ?_⟩
  refine (routed_iff_landsInTime "small" _ hr _).mpr ?_ (switching ++ setUp ++ landing) [] s
    (List.append_nil _).symm hs
  decide +kernel

end ArchonSearch.Descriptions.Routing
