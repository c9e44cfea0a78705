import ArchonSearch.Lib.Rewrite

/-!
# The migration of the embedding-model column

A metadata table of the legacy layout has an `embedding_model` column.
`migrate_per_collection_model` adds a blank `active_embedding_model` column, copies
the models over by deleting and re-inserting the rows one by one, drops the old
column and adds three more. What it has to do when it is run it decides from the
columns alone: a table that has the new column counts as copied.

The writes of a run are a list (`plan`), and a crash keeps a prefix of them. The copying is
therefore lost when the crash comes after the blank column has been added and before the last row
has been re-inserted: the next start finds the new column and copies nothing. `recovers_iff` says
exactly from which crashes the migration recovers.
-/

namespace ArchonSearch.Store.ModelMigration

open Lib List

/-! ### The metadata table -/

inductive Column where
  | embeddingModel
  | activeEmbeddingModel
  | pendingEmbeddingModel
  | needsReindex
  | reindexJobId
  deriving DecidableEq

/-- `DEFAULT_NAMESPACE`. -/
def defaultNamespace : String := "default"

/-- A row, `none` standing for a NULL and for a column the table does not have. The
cells of the three columns that are added with their defaults are read by nothing
here. -/
structure MetaRow (α : Type*) where
  name : String
  /-- `namespace`. -/
  (namesp embeddingModel activeEmbeddingModel : Option String)
  rest : α
  deriving DecidableEq

structure MetaTable (α : Type*) where
  schemaNames : List Column
  rows : List (MetaRow α)

variable {α : Type*}

def MetaRow.key (r : MetaRow α) : String × String := (r.name, r.namesp.getD defaultNamespace)

/-- `_row_to_meta`, the field `active_embedding_model`. -/
def MetaRow.toMetaActiveEmbeddingModel (r : MetaRow α) : String :=
  r.activeEmbeddingModel.getD (r.embeddingModel.getD "")

/-- `row.get("namespace") or DEFAULT_NAMESPACE`. -/
def namespaceVal : Option String → String
  | none => defaultNamespace
  | some ns => if ns = "" then defaultNamespace else ns

/-! ### The migration -/

inductive Write (α : Type*) where
  /-- `table.add_columns`, of a column with its default. -/
  | addColumn : Column → Write α
  /-- `table.delete`, of the rows of a name and a namespace. -/
  | delete : (name namesp : String) → Write α
  /-- `table.add`, of one row. -/
  | add : MetaRow α → Write α
  /-- `table.drop_columns`. -/
  | dropColumn : Column → Write α

/-- The predicate `name = … AND namespace = …`, extended by `OR namespace IS NULL`
for the default namespace. -/
def deletes (name namesp : String) (r : MetaRow α) : Bool :=
  r.name = name && (r.namesp = some namesp || (namesp = defaultNamespace && r.namesp = none))

def MetaTable.write (t : MetaTable α) : Write α → MetaTable α
  | .addColumn c =>
    ⟨t.schemaNames ++ [c],
      if c = .activeEmbeddingModel then
        t.rows.map fun r => { r with activeEmbeddingModel := some "" }
      else t.rows⟩
  | .delete name namesp => { t with rows := t.rows.filter fun r => !deletes name namesp r }
  | .add r => { t with rows := t.rows ++ [r] }
  | .dropColumn c =>
    ⟨t.schemaNames.filter (· ≠ c),
      if c = .embeddingModel then t.rows.map fun r => { r with embeddingModel := none }
      else t.rows⟩

/-- `_C1_EXTRA_COLUMNS`. -/
def extraColumns : List Column := [.pendingEmbeddingModel, .needsReindex, .reindexJobId]

def copyRow (row : MetaRow α) : List (Write α) :=
  [.delete row.name (namespaceVal row.namesp),
    .add { row with activeEmbeddingModel := some (row.embeddingModel.getD "") }]

/-- `migrate_per_collection_model`: the writes it makes on a table. `dropFails` says
whether LanceDB refuses to drop the old column, which is only logged. -/
def plan (t : MetaTable α) (dropFails : Bool) : List (Write α) :=
  let hasActive := t.schemaNames.contains .activeEmbeddingModel
  let hasOld := t.schemaNames.contains .embeddingModel
  let extraPresent := extraColumns.all t.schemaNames.contains
  if hasActive && extraPresent then []
  else
    (if hasActive then []
      else .addColumn .activeEmbeddingModel :: t.rows.flatMap copyRow ++
        (if hasOld && !dropFails then [.dropColumn .embeddingModel] else [])) ++
    (extraColumns.filter fun c => !t.schemaNames.contains c).map .addColumn

def MetaTable.writes (t : MetaTable α) (ws : List (Write α)) : MetaTable α :=
  ws.foldl MetaTable.write t

def migratePerCollectionModel (t : MetaTable α) (dropFails : Bool) : MetaTable α :=
  t.writes (plan t dropFails)

/-- The table a run leaves that dies after `k` of its writes. -/
def crashed (t : MetaTable α) (dropFails : Bool) (k : ℕ) : MetaTable α :=
  t.writes ((plan t dropFails).take k)

/-! ### The legacy layout -/

structure LegacyRow (α : Type*) where
  name : String
  /-- `namespace`, NULL in a row from before the column existed. -/
  namesp : Option String
  embeddingModel : String
  rest : α
  /-- A namespace that was written has passed `_validate_namespace`. -/
  namesp_ne : namesp ≠ some ""

open LegacyRow

@[ext] theorem LegacyRow.ext {r r' : LegacyRow α} (hnm : r.name = r'.name)
    (hns : r.namesp = r'.namesp) (hmod : r.embeddingModel = r'.embeddingModel)
    (hrs : r.rest = r'.rest) : r = r' := by
  cases r
  simp_all

def LegacyRow.key (r : LegacyRow α) : String × String := (r.name, r.namesp.getD defaultNamespace)

/-- The row as the table holds it, with a model in the new column or without that
column. -/
def LegacyRow.toRow (active : Option String) (r : LegacyRow α) : MetaRow α :=
  ⟨r.name, r.namesp, some r.embeddingModel, active, r.rest⟩

def LegacyRow.copied (r : LegacyRow α) : MetaRow α := r.toRow (some r.embeddingModel)

def legacy (rows : List (LegacyRow α)) : MetaTable α :=
  ⟨[.embeddingModel], rows.map (toRow none)⟩

@[simp] theorem key_copied (r : LegacyRow α) : r.copied.key = r.key := rfl

/-- **The row is still there**, and every row of its collection reads back with its
model. -/
structure Preserved (qs : List (MetaRow α)) (r : LegacyRow α) : Prop where
  present : ∃ q ∈ qs, q.name = r.name ∧ q.namesp = r.namesp ∧ q.rest = r.rest
  model : ∀ q ∈ qs, q.key = r.key → q.toMetaActiveEmbeddingModel = r.embeddingModel

/-- No two rows share a key and differ, one of them being among `copied`. -/
def Unambiguous (rows copied : List (LegacyRow α)) : Prop :=
  ∀ r ∈ rows, ∀ p ∈ copied, r.key = p.key → r = p

/-- **The crashes the migration recovers from.** Before the first write and after
the last re-insert it is enough that no two rows share a key. Between two rows of
the loop the rows not copied yet must have had a blank model, and between the delete
and the re-insert of a row nothing helps. -/
def Harmless (rows : List (LegacyRow α)) (k : ℕ) : Prop :=
  ((k = 0 ∨ 2 * rows.length < k) ∧ Unambiguous rows rows) ∨
    ∃ i < rows.length, k = 2 * i + 1 ∧ Unambiguous rows (rows.take i) ∧
      ∀ r ∈ rows, r.key ∉ (rows.take i).map key → r.embeddingModel = ""

/-! ### The rows in the course of a run -/

@[simp] theorem writes_nil (t : MetaTable α) : t.writes [] = t := rfl

theorem writes_cons (t : MetaTable α) (w : Write α) (ws : List (Write α)) :
    t.writes (w :: ws) = (t.write w).writes ws := rfl

@[simp] theorem writes_append (t : MetaTable α) (ws ws' : List (Write α)) :
    t.writes (ws ++ ws') = (t.writes ws).writes ws' := by
  simp [MetaTable.writes]

theorem deletes_eq (name namesp : String) (r : MetaRow α) :
    deletes name namesp r = decide (r.key = (name, namesp)) := by
  cases hns : r.namesp with
  | none => simp [deletes, MetaRow.key, hns, eq_comm]
  | some ns => simp [deletes, MetaRow.key, hns]

/-- The namespace the loop computes is the one of the key. -/
theorem namespaceVal_eq (r : LegacyRow α) :
    namespaceVal r.namesp = r.namesp.getD defaultNamespace := by
  cases hns : r.namesp with
  | none => rfl
  | some ns =>
    have hne : ns ≠ "" := by
      rintro rfl
      exact r.namesp_ne hns
    simp [namespaceVal, hne]

theorem rows_write_delete (t : MetaTable α) (r : LegacyRow α) :
    (t.write (.delete r.name (namespaceVal r.namesp))).rows
      = deleteKey MetaRow.key key t.rows r := by
  refine filter_congr fun q _ => ?_
  rw [deletes_eq, namespaceVal_eq, ← decide_not]
  rfl

/-- The delete and the re-insert of one row of the loop. -/
theorem rows_writes_copyRow (t : MetaTable α) (r : LegacyRow α) :
    (t.writes (copyRow (r.toRow none))).rows
      = deleteKey MetaRow.key key t.rows r ++ [r.copied] := by
  rw [← rows_write_delete]
  rfl

/-- **The loop** deletes and re-inserts the rows one after the other. -/
theorem rows_writes_loop (t : MetaTable α) (rows : List (LegacyRow α)) :
    (t.writes ((rows.map (toRow none)).flatMap copyRow)).rows
      = rewrite MetaRow.key key copied t.rows rows := by
  induction rows using List.reverseRecOn with
  | nil => rfl
  | append_singleton rows r ih =>
    rw [map_append, flatMap_append, writes_append, rewrite_concat, ← ih]
    exact rows_writes_copyRow _ r

@[simp] theorem length_loop (rows : List (MetaRow α)) :
    (rows.flatMap copyRow).length = 2 * rows.length := by
  induction rows with
  | nil => rfl
  | cons r rows ih =>
    simp only [flatMap_cons, length_append, ih, copyRow, length_cons, length_nil]
    omega

/-- The writes of the loop up to the end of its `i`-th row. -/
theorem take_loop_even (rows : List (MetaRow α)) (i : ℕ) :
    (rows.flatMap copyRow).take (2 * i) = (rows.take i).flatMap copyRow := by
  induction rows generalizing i with
  | nil => simp
  | cons r rows ih =>
    cases i with
    | zero => rfl
    | succ i =>
      rw [take_succ_cons, flatMap_cons, flatMap_cons, ← ih]
      rfl

variable {i : ℕ}

/-- The writes of the loop up to the delete of the row after the `i`-th. -/
theorem take_loop_odd (rows : List (MetaRow α)) (hi : i < rows.length) :
    (rows.flatMap copyRow).take (2 * i + 1)
      = (rows.take i).flatMap copyRow ++ [.delete rows[i].name (namespaceVal rows[i].namesp)] := by
  induction rows generalizing i with
  | nil => simp at hi
  | cons r rows ih =>
    cases i with
    | zero => rfl
    | succ i =>
      have hi' : i < rows.length := by simpa using hi
      rw [take_succ_cons, flatMap_cons, flatMap_cons, append_assoc, getElem_cons_succ, ← ih hi']
      rfl

/-! ### What a run leaves -/

def Write.Cleanup (w : Write α) : Prop :=
  w = .dropColumn .embeddingModel ∨ ∃ c ∈ extraColumns, w = .addColumn c

def MetaRow.dropOld (r : MetaRow α) : MetaRow α := { r with embeddingModel := none }

theorem dropOld_eq_iff {q q' : MetaRow α} :
    q.dropOld = q'.dropOld ↔ q.name = q'.name ∧ q.namesp = q'.namesp ∧
      q.activeEmbeddingModel = q'.activeEmbeddingModel ∧ q.rest = q'.rest := by
  simp [MetaRow.dropOld]

variable {t : MetaTable α} {ws : List (Write α)}

/-- The table has the new column after every list of writes of the loop and the
clean-up. -/
theorem mem_schemaNames_writes
    (ht : Column.activeEmbeddingModel ∈ t.schemaNames)
    (hws : ∀ c, Write.dropColumn c ∈ ws → c = .embeddingModel) :
    Column.activeEmbeddingModel ∈ (t.writes ws).schemaNames := by
  induction ws generalizing t with
  | nil => exact ht
  | cons w ws ih =>
    refine ih ?_ fun c hc => hws c (mem_cons_of_mem w hc)
    cases w with
    | addColumn c => simp [MetaTable.write, ht]
    | delete name ns => exact ht
    | add r => exact ht
    | dropColumn c =>
      obtain rfl := hws c mem_cons_self
      simp [MetaTable.write, ht]

/-- The clean-up changes nothing but the old column. -/
theorem map_dropOld_writes
    (hws : ∀ w ∈ ws, w.Cleanup) :
    (t.writes ws).rows.map MetaRow.dropOld = t.rows.map MetaRow.dropOld := by
  induction ws generalizing t with
  | nil => rfl
  | cons w ws ih =>
    refine (ih fun w' hw' => hws w' (mem_cons_of_mem w hw')).trans ?_
    rcases hws w mem_cons_self with rfl | ⟨c, hc, rfl⟩
    · simp [MetaTable.write, MetaRow.dropOld]
    · have hne : c ≠ .activeEmbeddingModel := by
        rintro rfl
        simp [extraColumns] at hc
      simp [MetaTable.write, hne]

/-- Reading back is not about the old column, once the new one is filled. -/
theorem Preserved.of_map_dropOld {qs qs' : List (MetaRow α)} {r : LegacyRow α}
    (heq : qs.map MetaRow.dropOld = qs'.map MetaRow.dropOld)
    (hfil : ∀ q ∈ qs, q.activeEmbeddingModel.isSome) (h : Preserved qs r) :
    Preserved qs' r := by
  obtain ⟨q, hq, hnm, hns, hrs⟩ := h.present
  refine ⟨?_, fun q' hq' hk => ?_⟩
  · have hmem : q.dropOld ∈ qs'.map MetaRow.dropOld := heq ▸ mem_map_of_mem hq
    obtain ⟨q', hq', heq'⟩ := mem_map.mp hmem
    obtain ⟨hnm', hns', -, hrs'⟩ := dropOld_eq_iff.mp heq'
    exact ⟨q', hq', hnm'.trans hnm, hns'.trans hns, hrs'.trans hrs⟩
  · have hmem : q'.dropOld ∈ qs.map MetaRow.dropOld := heq ▸ mem_map_of_mem hq'
    obtain ⟨q₁, hq₁, heq'⟩ := mem_map.mp hmem
    obtain ⟨hnm', hns', hact, -⟩ := dropOld_eq_iff.mp heq'
    have hk₁ : q₁.key = q'.key := by rw [MetaRow.key, MetaRow.key, hnm', hns']
    rw [← h.model q₁ hq₁ (hk₁.trans hk)]
    obtain ⟨m, hm⟩ := Option.isSome_iff_exists.mp (hfil q₁ hq₁)
    simp [MetaRow.toMetaActiveEmbeddingModel, ← hact, hm]

/-- Once the new column is there, a run of the migration changes no row. -/
theorem rows_migrate_of_active
    (ht : Column.activeEmbeddingModel ∈ t.schemaNames) (dropFails : Bool) :
    (migratePerCollectionModel t dropFails).rows = t.rows := by
  have hadd : ∀ (cs : List Column) (u : MetaTable α), (∀ c ∈ cs, c ∈ extraColumns) →
      (u.writes (cs.map .addColumn)).rows = u.rows := by
    intro cs
    induction cs with
    | nil => exact fun _ _ => rfl
    | cons c cs ih =>
      intro u hcs
      have hne : c ≠ .activeEmbeddingModel := by
        rintro rfl
        exact absurd (hcs _ mem_cons_self) (by simp [extraColumns])
      refine (ih _ fun c' hc' => hcs c' (mem_cons_of_mem c hc')).trans ?_
      simp [MetaTable.write, hne]
  unfold migratePerCollectionModel plan
  dsimp only
  split
  next => rfl
  next =>
    rw [if_pos (by simpa using ht), nil_append]
    exact hadd _ _ fun c hc => (mem_filter.mp hc).1

/-! ### The rows copied when a run dies -/

def blank (rows : List (LegacyRow α)) : MetaTable α :=
  (legacy rows).write (.addColumn .activeEmbeddingModel)

@[simp] theorem rows_blank (rows : List (LegacyRow α)) :
    (blank rows).rows = rows.map (toRow (some "")) := by
  simp [blank, legacy, MetaTable.write, toRow]

def cleanup (dropFails : Bool) : List (Write α) :=
  (if dropFails then [] else [.dropColumn .embeddingModel]) ++ extraColumns.map .addColumn

theorem cleanup_mem {dropFails : Bool} {w : Write α} (hw : w ∈ cleanup dropFails) :
    w.Cleanup := by
  rcases mem_append.mp hw with hw | hw
  · cases dropFails with
    | true => simp at hw
    | false => exact .inl (mem_singleton.mp hw)
  · obtain ⟨c, hc, rfl⟩ := mem_map.mp hw
    exact .inr ⟨c, hc, rfl⟩

/-- The writes of a run on a table of the legacy layout. -/
theorem plan_legacy (rows : List (LegacyRow α)) (dropFails : Bool) :
    plan (legacy rows) dropFails = .addColumn .activeEmbeddingModel ::
      ((rows.map (toRow none)).flatMap copyRow ++ cleanup dropFails) := by
  cases dropFails <;> simp [plan, legacy, cleanup, extraColumns]

/-- The rows once the models of `copied` have been copied. -/
def copiedRows (rows copied : List (LegacyRow α)) : List (MetaRow α) :=
  rewrite MetaRow.key LegacyRow.key LegacyRow.copied (rows.map (LegacyRow.toRow (some ""))) copied

/-- **After `i` rows of the loop** these have been copied. -/
theorem rows_crashed_odd (rows : List (LegacyRow α)) (dropFails : Bool)
    (hi : i ≤ rows.length) :
    (crashed (legacy rows) dropFails (2 * i + 1)).rows = copiedRows rows (rows.take i) := by
  have hlen : 2 * i ≤ ((rows.map (toRow none)).flatMap copyRow).length := by
    simp only [length_loop, length_map]
    omega
  rw [crashed, plan_legacy, take_succ_cons, take_append_of_le_length hlen,
    take_loop_even, ← map_take, copiedRows, ← rows_blank, ← rows_writes_loop]
  rfl

/-- **Between the delete and the re-insert** of a row there is none under its key. -/
theorem rows_crashed_even (rows : List (LegacyRow α)) (dropFails : Bool)
    (hi : i < rows.length) :
    (crashed (legacy rows) dropFails (2 * i + 2)).rows
      = deleteKey MetaRow.key key (copiedRows rows (rows.take i)) rows[i] := by
  have hlen : 2 * i + 1 ≤ ((rows.map (toRow none)).flatMap copyRow).length := by
    simp only [length_loop, length_map]
    omega
  have hi' : i < (rows.map (toRow none)).length := by simpa using hi
  rw [crashed, plan_legacy, take_succ_cons, take_append_of_le_length hlen,
    take_loop_odd _ hi', ← map_take, copiedRows, ← rows_blank, ← rows_writes_loop,
    ← rows_write_delete, getElem_map]
  simp only [MetaTable.writes, foldl_cons, foldl_append, foldl_nil]
  rfl

/-- **After the loop** all have been copied, and the old column may be gone. -/
theorem rows_crashed_late (rows : List (LegacyRow α)) (dropFails : Bool) {k : ℕ}
    (hk : 2 * rows.length < k) :
    (crashed (legacy rows) dropFails k).rows.map MetaRow.dropOld
      = (copiedRows rows rows).map MetaRow.dropOld := by
  obtain ⟨j, rfl⟩ : ∃ j, k = (2 * rows.length + j) + 1 := ⟨k - 2 * rows.length - 1, by omega⟩
  have hlen : 2 * rows.length = ((rows.map (toRow none)).flatMap copyRow).length := by
    rw [length_loop, length_map]
  have hclean : ∀ w ∈ (cleanup (α := α) dropFails).take j, w.Cleanup :=
    fun w hw => cleanup_mem (mem_of_mem_take hw)
  rw [crashed, plan_legacy, take_succ_cons, hlen, take_length_add_append,
    writes_cons, writes_append, map_dropOld_writes hclean, copiedRows, ← rows_blank,
    ← rows_writes_loop]
  rfl

/-- A run that has made a write has added the new column. -/
theorem mem_schemaNames_crashed (rows : List (LegacyRow α)) (dropFails : Bool) (k : ℕ) :
    Column.activeEmbeddingModel ∈ (crashed (legacy rows) dropFails (k + 1)).schemaNames := by
  rw [crashed, plan_legacy, take_succ_cons]
  refine mem_schemaNames_writes (t := blank rows) (by simp [blank, MetaTable.write]) ?_
  intro c hc
  rcases mem_append.mp (mem_of_mem_take hc) with hc | hc
  · obtain ⟨r, -, hc⟩ := mem_flatMap.mp hc
    simp [copyRow] at hc
  · rcases cleanup_mem hc with hc | ⟨c', -, hc⟩
    · simpa using hc
    · simp at hc

/-! ### Recovery -/

theorem isSome_of_mem_copiedRows {rows copied : List (LegacyRow α)} {q : MetaRow α}
    (hq : q ∈ copiedRows rows copied) : q.activeEmbeddingModel.isSome := by
  by_cases hk : q.key ∈ copied.map LegacyRow.key
  · obtain ⟨p, -, -, rfl⟩ := exists_eq_of_mem_rewrite key_copied hq hk
    rfl
  · obtain ⟨r, -, rfl⟩ := mem_map.mp ((mem_rewrite_of_notMem key_copied hk).mp hq)
    rfl

/-- **What a table in the middle of the copying reads back as.** -/
theorem preserved_copiedRows_iff {rows copied : List (LegacyRow α)} (hsub : copied ⊆ rows) :
    (∀ r ∈ rows, Preserved (copiedRows rows copied) r) ↔
      Unambiguous rows copied ∧ ∀ r ∈ rows, r.key ∉ copied.map key → r.embeddingModel = "" := by
  constructor
  · intro h
    refine ⟨fun r hr p hp hk => ?_, fun r hr hk => ?_⟩
    · -- there is one row under the key, and it has the columns of both
      obtain ⟨q, hq, hnm, hns, hrs⟩ := (h r hr).present
      obtain ⟨q', hq', hnm', hns', hrs'⟩ := (h p (hsub hp)).present
      have hqr : q.key = r.key := by rw [MetaRow.key, key, hnm, hns]
      have hqp : q'.key = p.key := by rw [MetaRow.key, key, hnm', hns']
      have hm : q.key ∈ copied.map key := by
        rw [hqr, hk]
        exact mem_map_of_mem hp
      obtain rfl := eq_of_mem_rewrite key_copied hq hq' hm (hqr.trans (hk.trans hqp.symm))
      have hmod : r.embeddingModel = p.embeddingModel :=
        ((h r hr).model q hq hqr).symm.trans ((h p (hsub hp)).model q hq hqp)
      exact ext (hnm.symm.trans hnm') (hns.symm.trans hns') hmod (hrs.symm.trans hrs')
    · -- the row has not been met, so it reads back blank
      have hm : r.toRow (some "") ∈ copiedRows rows copied :=
        (mem_rewrite_of_notMem key_copied hk).mpr (mem_map_of_mem hr)
      exact ((h r hr).model _ hm rfl).symm
  · rintro ⟨hunamb, hbl⟩ r hr
    by_cases hk : r.key ∈ copied.map key
    · obtain ⟨p, hp, hpr⟩ := mem_map.mp hk
      obtain rfl := hunamb r hr p hp hpr.symm
      have hall : ∀ q ∈ copiedRows rows copied, q.key = r.key → q = r.copied := by
        intro q hq hqr
        obtain ⟨p', hp', hpq, rfl⟩ := exists_eq_of_mem_rewrite key_copied hq (hqr ▸ hk)
        rw [hunamb r hr p' hp' (hqr.symm.trans hpq.symm)]
      obtain ⟨q, hq, hqr⟩ : ∃ q ∈ copiedRows rows copied, q.key = r.key :=
        exists_mem_rewrite key_copied hp
      refine ⟨⟨q, hq, ?_⟩, fun q' hq' hqr' => ?_⟩
      · rw [hall q hq hqr]
        exact ⟨rfl, rfl, rfl⟩
      · rw [hall q' hq' hqr']
        rfl
    · refine ⟨⟨r.toRow (some ""), (mem_rewrite_of_notMem key_copied hk).mpr
        (mem_map_of_mem hr), rfl, rfl, rfl⟩, fun q hq hqr => ?_⟩
      have hq' := (mem_rewrite_of_notMem key_copied (hqr ▸ hk)).mp hq
      obtain ⟨r', hr', rfl⟩ := mem_map.mp hq'
      exact (hbl r hr hk).symm

/-- After the loop the models are read back, if no two rows share a key. -/
theorem preserved_crashed_late_iff (rows : List (LegacyRow α)) (dropFails : Bool) {k : ℕ}
    (hk : 2 * rows.length < k) :
    (∀ r ∈ rows, Preserved (crashed (legacy rows) dropFails k).rows r) ↔ Unambiguous rows rows := by
  have heq := rows_crashed_late rows dropFails hk
  have hfil : ∀ q ∈ (crashed (legacy rows) dropFails k).rows,
      q.activeEmbeddingModel.isSome := by
    intro q hq
    have hm : q.dropOld ∈ (copiedRows rows rows).map MetaRow.dropOld :=
      heq ▸ mem_map_of_mem hq
    obtain ⟨q', hq', heq'⟩ := mem_map.mp hm
    rw [← (dropOld_eq_iff.mp heq').2.2.1]
    exact isSome_of_mem_copiedRows hq'
  have hcop := preserved_copiedRows_iff (List.Subset.refl rows)
  constructor
  · intro h
    exact (hcop.mp fun r hr => (h r hr).of_map_dropOld heq hfil).1
  · intro h r hr
    have hbl : ∀ r ∈ rows, r.key ∉ rows.map key → r.embeddingModel = "" :=
      fun r hr hkey => absurd (mem_map_of_mem hr) hkey
    exact (hcop.mpr ⟨h, hbl⟩ r hr).of_map_dropOld heq.symm fun q hq => isSome_of_mem_copiedRows hq

/-- **The migration recovers from exactly the harmless crashes.** A run on a table
of the legacy layout dies after `k` writes and another one is made at the next start:
every row is still there and reads back with its model if and only if the crash was
harmless. -/
theorem recovers_iff (rows : List (LegacyRow α)) (dropFails dropFails' : Bool) (k : ℕ) :
    (∀ r ∈ rows,
        Preserved (migratePerCollectionModel (crashed (legacy rows) dropFails k) dropFails').rows r)
      ↔ Harmless rows k := by
  rcases Nat.eq_zero_or_pos k with rfl | hpos
  · -- nothing was written: the next run makes all the writes
    have hall : migratePerCollectionModel (crashed (legacy rows) dropFails 0) dropFails'
        = crashed (legacy rows) dropFails' (plan (legacy rows) dropFails').length := by
      simp only [crashed, take_zero, writes_nil, take_length]
      rfl
    have hlen : 2 * rows.length < (plan (legacy rows) dropFails').length := by
      rw [plan_legacy, length_cons, length_append, length_loop, length_map]
      omega
    rw [hall, preserved_crashed_late_iff rows dropFails' hlen]
    constructor
    · intro h
      exact .inl ⟨.inl rfl, h⟩
    · rintro (⟨-, h⟩ | ⟨i, -, hi, -⟩)
      · exact h
      · omega
  · have hact : Column.activeEmbeddingModel
        ∈ (crashed (legacy rows) dropFails k).schemaNames := by
      obtain ⟨j, rfl⟩ : ∃ j, k = j + 1 := ⟨k - 1, by omega⟩
      exact mem_schemaNames_crashed rows dropFails j
    rw [rows_migrate_of_active hact]
    by_cases hlate : 2 * rows.length < k
    · rw [preserved_crashed_late_iff rows dropFails hlate]
      constructor
      · intro h
        exact .inl ⟨.inr hlate, h⟩
      · rintro (⟨-, h⟩ | ⟨i, hi, hk, -⟩)
        · exact h
        · omega
    · obtain ⟨i, hi, hk⟩ : ∃ i < rows.length, k = 2 * i + 1 ∨ k = 2 * i + 2 :=
        ⟨(k - 1) / 2, by omega, by omega⟩
      rcases hk with rfl | rfl
      · rw [rows_crashed_odd rows dropFails (Nat.le_of_lt hi),
          preserved_copiedRows_iff (take_subset i rows)]
        constructor
        · intro h
          exact .inr ⟨i, hi, rfl, h⟩
        · rintro (⟨h | h, -⟩ | ⟨j, -, hj, h⟩)
          · omega
          · omega
          · obtain rfl : i = j := by omega
            exact h
      · -- the row that was deleted and not re-inserted is lost
        refine iff_of_false (fun h => ?_) ?_
        · obtain ⟨q, hq, hnm, hns, -⟩ := (h rows[i] (getElem_mem hi)).present
          rw [rows_crashed_even rows dropFails hi] at hq
          refine (mem_deleteKey.mp hq).2 ?_
          rw [MetaRow.key, key, hnm, hns]
        · rintro (⟨h | h, -⟩ | ⟨j, -, hj, -⟩) <;> omega

/-- One collection, and a crash right after the blank column has been added: the
next start finds the column, and the model is blank for good. -/
theorem blank_after_crash :
    ¬ ∀ r ∈ [mk "docs" (some "default") "bge-small" () (by decide)],
        Preserved (migratePerCollectionModel
          (crashed (legacy [mk "docs" (some "default") "bge-small" () (by decide)])
            false 1) false).rows r := by
  intro h
  have hmod := (h _ mem_cons_self).model
    ⟨"docs", some "default", some "bge-small", some "", ()⟩ (by decide) rfl
  exact absurd hmod (by decide)

end ArchonSearch.Store.ModelMigration
