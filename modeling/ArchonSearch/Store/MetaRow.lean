import ArchonSearch.Identifiers
import ArchonSearch.Lib.Calls

/-!
# The columns of a metadata row

What is known of a collection is one row of a table, in which absence has many spellings: a column
may be missing, or NULL, or hold an empty text or `-1`, and the embedding model may stand in a
column of an older name. `_row_to_meta` reads all of them (`rowToMeta`); two writers have the
columns spelled out, each for itself (`updateCollectionMeta`, `doWriteMetaUnlocked`).

What a writer makes of the value that was read is read as this value again, and one field may be
replaced without a change to another (`readModifyWrite_keeps`) – but for a description: a row that
has one and names no source of it counts as generated, so that a first description that is written
alone brings its source and its status with it (`description_alone`).
-/

namespace ArchonSearch.Store.MetaRow

open Py Identifiers List Option

/-! ### The standard library -/

/-- How `json.loads` fails. -/
inductive LoadError where
  /-- `JSONDecodeError`. -/
  | jsonDecodeError
  | other

inductive Element (F : Type) where
  | int : ℤ → Element F
  | float : F → Element F
  /-- Anything else, a `bool` too. -/
  | other

/-- The modules `json`, `math` and `datetime`, as far as a row is read and written by them: `J` are
the values of a JSON text that are not `None`, `F` the floats and `D` the points in time. A value
that was written as text is the one that is read from it. -/
structure Stdlib (J F D : Type) where
  /-- `json.loads`; `null` is `None`. -/
  loads : String → Except LoadError (Option J)
  /-- `json.dumps`. -/
  dumps : J → String
  elements : J → Option (List (Element F))
  ofFloats : List F → J
  /-- `math.isfinite` of a float. -/
  isfinite : F → Bool
  /-- `float` of an `int`; `none` is an `OverflowError`. -/
  floatOfInt : ℤ → Option F
  /-- `datetime.fromisoformat`; `none` is a `ValueError`. -/
  fromisoformat : String → Option D
  /-- `datetime.isoformat`. -/
  isoformat : D → String
  loads_empty : loads "" = .error .jsonDecodeError
  loads_dumps : ∀ v, loads (dumps v) = .ok (some v)
  elements_ofFloats : ∀ xs, elements (ofFloats xs) = some (xs.map .float)
  isfinite_floatOfInt : ∀ n x, floatOfInt n = some x → isfinite x = true
  fromisoformat_empty : fromisoformat "" = none
  fromisoformat_isoformat : ∀ d, fromisoformat (isoformat d) = some d

/-! ### Rows and what they mean -/

inductive Cell (α : Type) where
  | missing
  | null
  | value : α → Cell α

/-- `row.get(column)`. -/
def Cell.get {α : Type} : Cell α → Option α
  | .value a => some a
  | _ => none

/-- A column with this value, which may be `None`. -/
def Cell.ofOption {α : Type} : Option α → Cell α
  | some a => .value a
  | none => .null

variable {α : Type}

@[simp] theorem Cell.get_value (a : α) : (Cell.value a).get = some a := rfl

@[simp] theorem Cell.get_ofOption (a : Option α) : (Cell.ofOption a).get = a := by
  cases a <;> rfl

structure Row where
  name : String
  (description centroidJson : Option String)
  descriptionEmbeddingJson : Cell String
  (docCount chunkCount : Option ℤ)
  activeEmbeddingModel : Cell String
  /-- `embedding_model`, the older name of the column. -/
  (embeddingModel pendingEmbeddingModel : Cell String)
  needsReindex : Cell Bool
  (reindexJobId communityRebuildJobId metadataReindexJobId : Cell String)
  (lastIndexed lastDescribed : Option String)
  describedAtDocCount : Option ℤ
  /-- `namespace`. -/
  (ns centroidSumJson : Cell String)
  mutationsSinceRecompute : Cell ℤ
  needsRecompute : Cell Bool
  (schemaVersion defaultTtlSeconds : Cell ℤ)
  (descriptionSource descriptionStatus : Cell String)

/-- `CollectionMeta`. -/
structure CollectionMeta (J F D : Type) where
  name : String
  description : Option String := none
  centroid : Option J := none
  centroidSum : Option (List F) := none
  mutationsSinceRecompute : ℤ := 0
  needsRecompute : Bool := false
  docCount : Option ℤ := some 0
  chunkCount : Option ℤ := some 0
  activeEmbeddingModel : Option String := some ""
  pendingEmbeddingModel : Option String := none
  needsReindex : Bool := false
  reindexJobId : Option String := none
  communityRebuildJobId : Option String := none
  metadataReindexJobId : Option String := none
  lastIndexed : Option D := none
  lastDescribed : Option D := none
  describedAtDocCount : Option ℤ := none
  /-- `namespace`. -/
  ns : String := "default"
  descriptionEmbedding : Option (List F) := none
  schemaVersion : ℤ := 0
  defaultTtlSeconds : Option ℤ := none
  descriptionSource : Option String := none
  descriptionStatus : Option String := none

variable {J F D : Type} (py : Stdlib J F D) (isPrintable : Char → Bool)

/-! ### Reading a row -/

/-- `value or None`, of a text. -/
def orNone (value : Option String) : Option String := value.filter (· ≠ "")

/-- `any(type(x) not in (int, float) or not math.isfinite(x) for x in parsed)`; an `int` that is no
float raises. -/
def anyNotFinite : List (Element F) → Option Bool
  | [] => some false
  | .float x :: xs => if !py.isfinite x then some true else anyNotFinite xs
  | .int n :: xs => do
    let x ← py.floatOfInt n
    if !py.isfinite x then some true else anyNotFinite xs
  | .other :: _ => some true

/-- `float(x)`. -/
def toFloat : Element F → Option F
  | .float x => some x
  | .int n => py.floatOfInt n
  | .other => none

/-- A vector of floats in a column, `None` where there is no such vector; the outer `none` says
that reading raises. -/
def readVector (raw : Option String) : Option (Option (List F)) :=
  match orNone raw with
  | none => some none
  | some raw =>
    match py.loads raw with
    | .error .jsonDecodeError => some none
    | .error .other => none
    | .ok none => some none
    | .ok (some parsed) =>
      match py.elements parsed with
      | none => some none
      | some xs => do
        if ← anyNotFinite py xs then some none
        else return some (← xs.mapM (toFloat py))

def readCentroid (raw : Option String) : Option (Option J) :=
  match orNone raw with
  | none => some none
  | some raw =>
    match py.loads raw with
    | .error .jsonDecodeError => some none
    | .error .other => none
    | .ok v => some v

/-- `datetime.fromisoformat(raw) if raw else None`. -/
def readTime (raw : Option String) : Option (Option D) :=
  match orNone raw with
  | none => some none
  | some raw => (py.fromisoformat raw).map some

/-- `DESCRIPTION_SOURCES`. -/
def descriptionSources : List String := ["generated", "manual"]

/-- `DESCRIPTION_STORED_STATUSES`. -/
def descriptionStoredStatuses : List String := ["ok", "failed"]

/-- `_stored_description_value`. -/
def storedDescriptionValue (value : Option String) (allowed : List String) : Option String :=
  (orNone value).filter (allowed.contains ·)

/-- `_description_state`. -/
def descriptionState (row : Row) : Option String × Option String :=
  let hasDescription := (orNone row.description).isSome
  let source := storedDescriptionValue row.descriptionSource.get descriptionSources
  let status := storedDescriptionValue row.descriptionStatus.get descriptionStoredStatuses
  (source.or (if hasDescription then some "generated" else none),
    status.or (if hasDescription then some "ok" else none))

/-- `row["active_embedding_model"] if row.get("active_embedding_model") is not None else
row.get("embedding_model", "")`. -/
def Row.activeModel (row : Row) : Option String :=
  match row.activeEmbeddingModel.get with
  | some model => some model
  | none =>
    match row.embeddingModel with
    | .missing => some ""
    | cell => cell.get

/-- `_row_to_meta`; `none` says that it raises. -/
def rowToMeta (row : Row) : Option (CollectionMeta J F D) := do
  let centroid ← readCentroid py row.centroidJson
  let descriptionEmbedding ← readVector py row.descriptionEmbeddingJson.get
  let lastIndexed ← readTime py row.lastIndexed
  let lastDescribed ← readTime py row.lastDescribed
  let rawDescribedAt ← row.describedAtDocCount
  let describedAt := if rawDescribedAt < 0 then none else some rawDescribedAt
  let centroidSum ← readVector py row.centroidSumJson.get
  let (descriptionSource, descriptionStatus) := descriptionState row
  return {
    name := row.name
    description := orNone row.description
    centroid := centroid
    centroidSum := centroidSum
    mutationsSinceRecompute := row.mutationsSinceRecompute.get.getD 0
    needsRecompute := row.needsRecompute.get.getD false
    docCount := row.docCount
    chunkCount := row.chunkCount
    activeEmbeddingModel := row.activeModel
    pendingEmbeddingModel := orNone row.pendingEmbeddingModel.get
    needsReindex := row.needsReindex.get.getD false
    reindexJobId := orNone row.reindexJobId.get
    communityRebuildJobId := orNone row.communityRebuildJobId.get
    metadataReindexJobId := orNone row.metadataReindexJobId.get
    lastIndexed := lastIndexed
    lastDescribed := lastDescribed
    describedAtDocCount := describedAt
    ns := (orNone row.ns.get).getD "default"
    descriptionEmbedding := descriptionEmbedding
    schemaVersion := row.schemaVersion.get.getD 0
    defaultTtlSeconds := row.defaultTtlSeconds.get
    descriptionSource := descriptionSource
    descriptionStatus := descriptionStatus }

/-! ### Writing a row -/

/-- `repr` of a tuple of texts. -/
def reprTuple (texts : List String) : String :=
  "(" ++ ", ".intercalate (texts.map (reprStr isPrintable)) ++ ")"

/-- `check_stored_description_value`. -/
def checkStoredDescriptionValue (column : String) (value : Option String) (allowed : List String) :
    Except String Unit :=
  match value with
  | none => .ok ()
  | some value =>
    if allowed.contains value then .ok ()
    else .error (column ++ " " ++ reprStr isPrintable value ++
      " cannot be stored; expected one of " ++ reprTuple isPrintable allowed)

/-- `_description_state_columns`. -/
def descriptionStateColumns (m : CollectionMeta J F D) : Except String (String × String) := do
  checkStoredDescriptionValue isPrintable "description_source" m.descriptionSource
    descriptionSources
  checkStoredDescriptionValue isPrintable "description_status" m.descriptionStatus
    descriptionStoredStatuses
  return (m.descriptionSource.getD "", m.descriptionStatus.getD "")

/-- `update_collection_meta`: the row that is merged into the table; `existing` is the namespace
of the row of this name, if there is one. -/
def updateCollectionMeta (existing : Option (Cell String)) (m : CollectionMeta J F D) :
    Except String Row := do
  validateNamespace isPrintable m.ns
  validateStoreCollection isPrintable m.name
  if let some cell := existing then
    let existingNs := (orNone cell.get).getD "default"
    if existingNs ≠ m.ns then
      throw ("Collection " ++ reprStr isPrintable m.name ++ " belongs to namespace " ++
        reprStr isPrintable existingNs ++ "; cannot reassign to " ++ reprStr isPrintable m.ns)
  let descriptionEmbeddingJson := match m.descriptionEmbedding with
    | some xs => py.dumps (py.ofFloats xs)
    | none => ""
  let lastIndexedStr := (m.lastIndexed.map py.isoformat).getD ""
  let lastDescribedStr := (m.lastDescribed.map py.isoformat).getD ""
  let describedAt := m.describedAtDocCount.getD (-1)
  let (descriptionSource, descriptionStatus) ← descriptionStateColumns isPrintable m
  return {
    name := m.name
    description := some (m.description.getD "")
    centroidJson := some ((m.centroid.map py.dumps).getD "")
    descriptionEmbeddingJson := .value descriptionEmbeddingJson
    docCount := m.docCount
    chunkCount := m.chunkCount
    activeEmbeddingModel := .ofOption m.activeEmbeddingModel
    embeddingModel := .missing
    pendingEmbeddingModel := .value (m.pendingEmbeddingModel.getD "")
    needsReindex := .value m.needsReindex
    reindexJobId := .value (m.reindexJobId.getD "")
    communityRebuildJobId := .value (m.communityRebuildJobId.getD "")
    metadataReindexJobId := .value (m.metadataReindexJobId.getD "")
    lastIndexed := some lastIndexedStr
    lastDescribed := some lastDescribedStr
    describedAtDocCount := some describedAt
    ns := .value m.ns
    centroidSumJson := .value (match m.centroidSum with
      | some xs => py.dumps (py.ofFloats xs)
      | none => "")
    mutationsSinceRecompute := .value m.mutationsSinceRecompute
    needsRecompute := .value m.needsRecompute
    schemaVersion := .value m.schemaVersion
    defaultTtlSeconds := .ofOption m.defaultTtlSeconds
    descriptionSource := .value descriptionSource
    descriptionStatus := .value descriptionStatus }

/-- `_do_write_meta_unlocked`: the row that is merged into the table. -/
def doWriteMetaUnlocked (collection : String) (m : CollectionMeta J F D) : Except String Row := do
  if collection ≠ m.name then
    throw ("collection " ++ reprStr isPrintable collection ++ " != meta.name " ++
      reprStr isPrintable m.name)
  validateNamespace isPrintable m.ns
  validateStoreCollection isPrintable m.name
  let descriptionEmbeddingJson := match m.descriptionEmbedding with
    | some xs => py.dumps (py.ofFloats xs)
    | none => ""
  let lastIndexedStr := (m.lastIndexed.map py.isoformat).getD ""
  let lastDescribedStr := (m.lastDescribed.map py.isoformat).getD ""
  let describedAt := m.describedAtDocCount.getD (-1)
  let (descriptionSource, descriptionStatus) ← descriptionStateColumns isPrintable m
  return {
    name := m.name
    description := some (m.description.getD "")
    centroidJson := some ((m.centroid.map py.dumps).getD "")
    descriptionEmbeddingJson := .value descriptionEmbeddingJson
    docCount := m.docCount
    chunkCount := m.chunkCount
    activeEmbeddingModel := .ofOption m.activeEmbeddingModel
    embeddingModel := .missing
    pendingEmbeddingModel := .value (m.pendingEmbeddingModel.getD "")
    needsReindex := .value m.needsReindex
    reindexJobId := .value (m.reindexJobId.getD "")
    communityRebuildJobId := .value (m.communityRebuildJobId.getD "")
    metadataReindexJobId := .value (m.metadataReindexJobId.getD "")
    lastIndexed := some lastIndexedStr
    lastDescribed := some lastDescribedStr
    describedAtDocCount := some describedAt
    ns := .value m.ns
    centroidSumJson := .value (match m.centroidSum with
      | some xs => py.dumps (py.ofFloats xs)
      | none => "")
    mutationsSinceRecompute := .value m.mutationsSinceRecompute
    needsRecompute := .value m.needsRecompute
    schemaVersion := .value m.schemaVersion
    defaultTtlSeconds := .ofOption m.defaultTtlSeconds
    descriptionSource := .value descriptionSource
    descriptionStatus := .value descriptionStatus }

/-- The row in the table after the merge, where there was this one before: a writer has no value
for the column of the older name, which is then kept or NULL, if the table has it. -/
def Row.merged (keeps : Bool) (before written : Row) : Row :=
  { written with
    embeddingModel :=
      match before.embeddingModel with
      | .missing => .missing
      | cell => if keeps then cell else .null }

/-- A row whose name and namespace a writer took; a row of the time before there were namespaces
has none. -/
structure StoredRow (isPrintable : Char → Bool) extends Row where
  name_valid : validateStoreCollection isPrintable name = .ok ()
  ns_valid : ∀ owner, orNone ns.get = some owner → validateNamespace isPrintable owner = .ok ()

/-! ### What the writers write -/

def CollectionMeta.IsStorable (m : CollectionMeta J F D) : Prop :=
  (∀ source, m.descriptionSource = some source → source ∈ descriptionSources) ∧
    ∀ status, m.descriptionStatus = some status → status ∈ descriptionStoredStatuses

def CollectionMeta.row (m : CollectionMeta J F D) : Row where
  name := m.name
  description := some (m.description.getD "")
  centroidJson := some ((m.centroid.map py.dumps).getD "")
  descriptionEmbeddingJson := .value (match m.descriptionEmbedding with
    | some xs => py.dumps (py.ofFloats xs)
    | none => "")
  docCount := m.docCount
  chunkCount := m.chunkCount
  activeEmbeddingModel := .ofOption m.activeEmbeddingModel
  embeddingModel := .missing
  pendingEmbeddingModel := .value (m.pendingEmbeddingModel.getD "")
  needsReindex := .value m.needsReindex
  reindexJobId := .value (m.reindexJobId.getD "")
  communityRebuildJobId := .value (m.communityRebuildJobId.getD "")
  metadataReindexJobId := .value (m.metadataReindexJobId.getD "")
  lastIndexed := some ((m.lastIndexed.map py.isoformat).getD "")
  lastDescribed := some ((m.lastDescribed.map py.isoformat).getD "")
  describedAtDocCount := some (m.describedAtDocCount.getD (-1))
  ns := .value m.ns
  centroidSumJson := .value (match m.centroidSum with
    | some xs => py.dumps (py.ofFloats xs)
    | none => "")
  mutationsSinceRecompute := .value m.mutationsSinceRecompute
  needsRecompute := .value m.needsRecompute
  schemaVersion := .value m.schemaVersion
  defaultTtlSeconds := .ofOption m.defaultTtlSeconds
  descriptionSource := .value (m.descriptionSource.getD "")
  descriptionStatus := .value (m.descriptionStatus.getD "")

variable {py} {isPrintable} {m : CollectionMeta J F D} {written : Row} {value : Option String}
  {allowed : List String}

theorem checkStoredDescriptionValue_eq_ok {column : String} :
    checkStoredDescriptionValue isPrintable column value allowed = .ok () ↔
      ∀ text, value = some text → text ∈ allowed := by
  cases value with
  | none => simp [checkStoredDescriptionValue]
  | some text => by_cases h : text ∈ allowed <;> simp [checkStoredDescriptionValue, h]

theorem descriptionStateColumns_eq_ok {columns : String × String} :
    descriptionStateColumns isPrintable m = .ok columns ↔
      m.IsStorable ∧ columns = (m.descriptionSource.getD "", m.descriptionStatus.getD "") := by
  unfold descriptionStateColumns CollectionMeta.IsStorable
  rw [← checkStoredDescriptionValue_eq_ok, ← checkStoredDescriptionValue_eq_ok]
  cases hsrc : checkStoredDescriptionValue isPrintable "description_source"
    m.descriptionSource descriptionSources <;>
  cases hstat : checkStoredDescriptionValue isPrintable "description_status"
    m.descriptionStatus descriptionStoredStatuses <;>
  simp [bind, Except.bind, pure, Except.pure, eq_comm]

def CollectionMeta.WrittenAs (py : Stdlib J F D) (isPrintable : Char → Bool)
    (m : CollectionMeta J F D) (written : Row) : Prop :=
  validateNamespace isPrintable m.ns = .ok () ∧
    validateStoreCollection isPrintable m.name = .ok () ∧ m.IsStorable ∧ written = m.row py

/-- Both writers check the two names and the columns before they make a row. -/
theorem writtenAs_iff {make : String × String → Except String Row}
    (hmake : make (m.descriptionSource.getD "", m.descriptionStatus.getD "") = .ok (m.row py)) :
    (∃ u, validateNamespace isPrintable m.ns = .ok u ∧
      ∃ u', validateStoreCollection isPrintable m.name = .ok u' ∧ ∃ columns, (m.IsStorable ∧
        columns = (m.descriptionSource.getD "", m.descriptionStatus.getD "")) ∧
        make columns = .ok written) ↔ m.WrittenAs py isPrintable written := by
  constructor
  · rintro ⟨⟨⟩, hns, ⟨⟩, hcoll, columns, ⟨hstor, rfl⟩, hr⟩
    exact ⟨hns, hcoll, hstor, (Except.ok.inj (hmake.symm.trans hr)).symm⟩
  · rintro ⟨hns, hcoll, hstor, rfl⟩
    exact ⟨(), hns, (), hcoll, _, ⟨hstor, rfl⟩, hmake⟩

theorem doWriteMetaUnlocked_eq_ok {collection : String} :
    doWriteMetaUnlocked py isPrintable collection m = .ok written ↔
      collection = m.name ∧ m.WrittenAs py isPrintable written := by
  unfold doWriteMetaUnlocked
  by_cases hnm : collection = m.name
  · rw [if_neg (not_not.mpr hnm)]
    simp only [Lib.bind_eq_ok, descriptionStateColumns_eq_ok, hnm, true_and]
    exact writtenAs_iff rfl
  · rw [if_pos hnm]
    simp [hnm, throw, throwThe, MonadExceptOf.throw, bind, Except.bind]

/-- The row is one of the namespace, or there is none. -/
def SameOwner (existing : Option (Cell String)) (ns : String) : Prop :=
  ∀ cell, existing = some cell → (orNone cell.get).getD "default" = ns

variable {existing : Option (Cell String)}

theorem updateCollectionMeta_eq_ok :
    updateCollectionMeta py isPrintable existing m = .ok written ↔
      SameOwner existing m.ns ∧ m.WrittenAs py isPrintable written := by
  unfold updateCollectionMeta SameOwner
  cases existing with
  | none =>
    simp only [Lib.bind_eq_ok, descriptionStateColumns_eq_ok, reduceCtorEq, false_implies,
      implies_true, true_and]
    exact writtenAs_iff rfl
  | some cell =>
    by_cases ho : (orNone cell.get).getD "default" = m.ns
    · simp only [ho, ne_eq, not_true_eq_false, if_false, Lib.bind_eq_ok,
        descriptionStateColumns_eq_ok, some.injEq, forall_eq', true_and]
      exact writtenAs_iff rfl
    · simp only [ho, ne_eq, not_false_eq_true, if_true, Lib.bind_eq_ok, some.injEq,
        forall_eq', false_and, iff_false]
      rintro ⟨⟨⟩, -, ⟨⟩, -, _, hthrow, -⟩
      cases hthrow

/-! ### Reading what was written -/

theorem dumps_ne_empty (py : Stdlib J F D) (v : J) : py.dumps v ≠ "" := by
  intro h
  have hloads := py.loads_dumps v
  rw [h, py.loads_empty] at hloads
  cases hloads

theorem isoformat_ne_empty (py : Stdlib J F D) (d : D) : py.isoformat d ≠ "" := by
  intro h
  have hrd := py.fromisoformat_isoformat d
  rw [h, py.fromisoformat_empty] at hrd
  cases hrd

theorem orNone_some {value : String} (h : value ≠ "") : orNone (some value) = some value := by
  simp [orNone, Option.filter, h]

@[simp] theorem orNone_getD (value : Option String) :
    orNone (some (value.getD "")) = orNone value := by
  cases value <;> simp [orNone, Option.filter]

@[simp] theorem orNone_orNone (value : Option String) : orNone (orNone value) = orNone value := by
  simp [orNone, Option.filter_filter]

theorem readTime_isoformat (time : Option D) :
    readTime py (some ((time.map py.isoformat).getD "")) = some time := by
  cases time with
  | none => rfl
  | some d => simp [readTime, orNone_some (isoformat_ne_empty py d), py.fromisoformat_isoformat]

theorem readCentroid_dumps (centroid : Option J) :
    readCentroid py (some ((centroid.map py.dumps).getD "")) = some centroid := by
  cases centroid with
  | none => rfl
  | some v => simp [readCentroid, orNone_some (dumps_ne_empty py v), py.loads_dumps]

theorem anyNotFinite_floats (xs : List F) :
    anyNotFinite py (xs.map .float) = some (!xs.all py.isfinite) := by
  induction xs with
  | nil => rfl
  | cons x xs ih =>
    rw [map_cons, anyNotFinite, ih, all_cons]
    cases py.isfinite x <;> rfl

/-- Floats are read as they were, if they are finite. -/
theorem readVector_dumps (v : Option (List F)) :
    readVector py (some (match v with
      | some xs => py.dumps (py.ofFloats xs)
      | none => "")) = some (v.filter (·.all py.isfinite)) := by
  cases v with
  | none => rfl
  | some xs =>
    have htoFloat : (xs.map Element.float).mapM (toFloat py) = some xs := by
      induction xs with
      | nil => rfl
      | cons x xs ih => simp [mapM_cons, ih, toFloat]
    simp only [readVector, orNone_some (dumps_ne_empty py _), py.loads_dumps,
      py.elements_ofFloats, anyNotFinite_floats, htoFloat]
    cases h : xs.all py.isfinite <;> simp [h, Option.filter]

def Row.olderModel (keeps : Bool) (before : Row) : Option String :=
  match before.embeddingModel with
  | .missing => some ""
  | cell => if keeps then cell.get else none

def describedOr (description value : Option String) (default : String) : Option String :=
  value.or (if (orNone description).isSome then some default else none)

variable (py) in
def CollectionMeta.readBack (keeps : Bool) (before : Row) (m : CollectionMeta J F D) :
    CollectionMeta J F D :=
  { m with
    description := orNone m.description
    centroidSum := m.centroidSum.filter (·.all py.isfinite)
    descriptionEmbedding := m.descriptionEmbedding.filter (·.all py.isfinite)
    activeEmbeddingModel := m.activeEmbeddingModel.or (before.olderModel keeps)
    pendingEmbeddingModel := orNone m.pendingEmbeddingModel
    reindexJobId := orNone m.reindexJobId
    communityRebuildJobId := orNone m.communityRebuildJobId
    metadataReindexJobId := orNone m.metadataReindexJobId
    describedAtDocCount := m.describedAtDocCount.filter (0 ≤ ·)
    descriptionSource := describedOr m.description m.descriptionSource "generated"
    descriptionStatus := describedOr m.description m.descriptionStatus "ok" }

theorem storedDescriptionValue_getD
    (hemp : "" ∉ allowed) (h : ∀ text, value = some text → text ∈ allowed) :
    storedDescriptionValue (some (value.getD "")) allowed = value := by
  cases value with
  | none => rfl
  | some text =>
    have hm := h text rfl
    have hne : text ≠ "" := fun heq => hemp (heq ▸ hm)
    simp [storedDescriptionValue, orNone_some hne, Option.filter, hm]

theorem describedAt_getD (value : Option ℤ) :
    (if value.getD (-1) < 0 then none else some (value.getD (-1))) = value.filter (0 ≤ ·) := by
  cases value with
  | none => rfl
  | some n =>
    by_cases h : n < 0
    · simp [Option.filter, h]
    · simp [Option.filter, h, Int.not_lt.mp h]

theorem activeModel_merged (keeps : Bool) (before written : Row) :
    (Row.merged keeps before written).activeModel =
      written.activeEmbeddingModel.get.or (before.olderModel keeps) := by
  unfold Row.activeModel Row.merged Row.olderModel
  cases written.activeEmbeddingModel.get with
  | some model => rfl
  | none => cases before.embeddingModel <;> cases keeps <;> rfl

/-- **What a writer wrote is read back.** -/
theorem rowToMeta_merged (keeps : Bool) (before : Row) (hstor : m.IsStorable)
    (hns : m.ns ≠ "") :
    rowToMeta py (Row.merged keeps before (m.row py)) = some (m.readBack py keeps before) := by
  have hsrc := storedDescriptionValue_getD (by decide) hstor.1
  have hstat := storedDescriptionValue_getD (by decide) hstor.2
  have hact := activeModel_merged keeps before (m.row py)
  unfold Row.merged at hact ⊢
  unfold rowToMeta
  rw [hact]
  unfold CollectionMeta.row
  simp only [Cell.get_value, readCentroid_dumps, readVector_dumps, readTime_isoformat,
    descriptionState, hsrc, hstat, describedAt_getD, orNone_getD, orNone_some hns,
    getD_some, Cell.get_ofOption, bind_eq_bind, bind_some, Option.pure_def]
  rfl

/-! ### Reading it again -/

variable {row : Row}

/-- The floats of a list without another element are finite. -/
theorem all_isfinite_of_mapM {elements : List (Element F)} {xs : List F}
    (hfin : anyNotFinite py elements = some false)
    (hxs : elements.mapM (toFloat py) = some xs) : xs.all py.isfinite = true := by
  induction elements generalizing xs with
  | nil =>
    obtain rfl : [] = xs := some.inj hxs
    rfl
  | cons e elements ih =>
    rw [mapM_cons] at hxs
    simp only [bind_eq_bind, bind_eq_some_iff] at hxs
    obtain ⟨x, hx, rest, hrs, ⟨⟩⟩ := hxs
    have hhead : py.isfinite x = true ∧ anyNotFinite py elements = some false := by
      cases e with
      | float y =>
        obtain rfl : y = x := some.inj hx
        cases hy : py.isfinite y <;> simp_all [anyNotFinite]
      | int n =>
        have hn := py.isfinite_floatOfInt n x hx
        rw [toFloat] at hx
        simp_all [anyNotFinite]
      | other => cases hx
    rw [all_cons, hhead.1, ih hhead.2 hrs]
    rfl

theorem filter_readVector {raw : Option String} {v : Option (List F)}
    (h : readVector py raw = some v) : v.filter (·.all py.isfinite) = v := by
  cases v with
  | none => rfl
  | some xs =>
    suffices hall : xs.all py.isfinite = true by simp [Option.filter, hall]
    unfold readVector at h
    split at h
    · cases h
    split at h
    · cases h
    · cases h
    · cases h
    · split at h
      · cases h
      · rename_i elements _
        simp only [bind_eq_bind, bind_eq_some_iff] at h
        obtain ⟨found, hfin, h⟩ := h
        cases found with
        | true => cases h
        | false =>
          obtain ⟨ys, hys, hpure⟩ := bind_eq_some_iff.mp h
          obtain rfl : ys = xs := by simpa using hpure
          exact all_isfinite_of_mapM hfin hys

theorem mem_of_storedDescriptionValue
    {text : String} (h : storedDescriptionValue value allowed = some text) : text ∈ allowed := by
  simpa using (filter_eq_some_iff.mp h).2

/-- A state that was read is one that the store can hold. -/
theorem mem_of_or_eq_some {default text : String}
    {described : Bool} (hdef : default ∈ allowed)
    (h : (storedDescriptionValue value allowed).or
      (if described then some default else none) = some text) : text ∈ allowed := by
  rcases or_eq_some_iff.mp h with hsto | ⟨-, hdes⟩
  · exact mem_of_storedDescriptionValue hsto
  · cases described with
    | true => exact some.inj hdes ▸ hdef
    | false => cases hdes

theorem describedOr_or (description value : Option String) (default : String) :
    describedOr (orNone description)
      (value.or (if (orNone description).isSome then some default else none)) default =
        value.or (if (orNone description).isSome then some default else none) := by
  rw [describedOr, orNone_orNone]
  cases value <;> cases (orNone description).isSome <;> rfl

/-- **What was read of a row is read of it again, once it is written**, and a writer can write
it. -/
theorem readBack_of_rowToMeta (keeps : Bool) (h : rowToMeta py row = some m) :
    m.IsStorable ∧ m.readBack py keeps row = m ∧ m.name = row.name ∧
      m.ns = (orNone row.ns.get).getD "default" := by
  unfold rowToMeta at h
  simp only [bind_eq_bind, bind_eq_some_iff] at h
  obtain ⟨centroid, -, embedding, hemb, indexed, -, described, -, count, hcnt, centroidSum,
    hsum, hm⟩ := h
  cases hm
  refine ⟨⟨fun source hsrc => ?_, fun status hstat => ?_⟩, ?_, rfl, rfl⟩
  · exact mem_of_or_eq_some (by decide) hsrc
  · exact mem_of_or_eq_some (by decide) hstat
  · have hmod : row.activeModel.or (row.olderModel keeps) = row.activeModel := by
      unfold Row.activeModel Row.olderModel
      cases row.activeEmbeddingModel.get with
      | some model => rfl
      | none => cases row.embeddingModel <;> cases keeps <;> rfl
    have hdes : (if count < 0 then none else some count).filter (0 ≤ ·) =
        if count < 0 then none else some count := by
      by_cases hneg : count < 0
      · simp [hneg]
      · simp [hneg, Option.filter, Int.not_lt.mp hneg]
    unfold CollectionMeta.readBack descriptionState
    simp [filter_readVector hemb, filter_readVector hsum, hmod, hdes, describedOr_or]

/-! ### Read, modify, write -/

/-- The fields of `CollectionMeta`. -/
inductive Field where
  | name
  | description
  | centroid
  | centroidSum
  | mutationsSinceRecompute
  | needsRecompute
  | docCount
  | chunkCount
  | activeEmbeddingModel
  | pendingEmbeddingModel
  | needsReindex
  | reindexJobId
  | communityRebuildJobId
  | metadataReindexJobId
  | lastIndexed
  | lastDescribed
  | describedAtDocCount
  /-- `namespace`. -/
  | ns
  | descriptionEmbedding
  | schemaVersion
  | defaultTtlSeconds
  | descriptionSource
  | descriptionStatus

abbrev Field.Value (J F D : Type) : Field → Type
  | .name | .ns => String
  | .description | .activeEmbeddingModel | .pendingEmbeddingModel | .reindexJobId |
    .communityRebuildJobId | .metadataReindexJobId | .descriptionSource |
    .descriptionStatus => Option String
  | .centroid => Option J
  | .centroidSum | .descriptionEmbedding => Option (List F)
  | .mutationsSinceRecompute | .schemaVersion => ℤ
  | .needsRecompute | .needsReindex => Bool
  | .docCount | .chunkCount | .describedAtDocCount | .defaultTtlSeconds => Option ℤ
  | .lastIndexed | .lastDescribed => Option D

/-- `dataclasses.replace`, of one field. -/
def CollectionMeta.replace (m : CollectionMeta J F D) :
    (field : Field) → field.Value J F D → CollectionMeta J F D
  | .name, v => { m with name := v }
  | .description, v => { m with description := v }
  | .centroid, v => { m with centroid := v }
  | .centroidSum, v => { m with centroidSum := v }
  | .mutationsSinceRecompute, v => { m with mutationsSinceRecompute := v }
  | .needsRecompute, v => { m with needsRecompute := v }
  | .docCount, v => { m with docCount := v }
  | .chunkCount, v => { m with chunkCount := v }
  | .activeEmbeddingModel, v => { m with activeEmbeddingModel := v }
  | .pendingEmbeddingModel, v => { m with pendingEmbeddingModel := v }
  | .needsReindex, v => { m with needsReindex := v }
  | .reindexJobId, v => { m with reindexJobId := v }
  | .communityRebuildJobId, v => { m with communityRebuildJobId := v }
  | .metadataReindexJobId, v => { m with metadataReindexJobId := v }
  | .lastIndexed, v => { m with lastIndexed := v }
  | .lastDescribed, v => { m with lastDescribed := v }
  | .describedAtDocCount, v => { m with describedAtDocCount := v }
  | .ns, v => { m with ns := v }
  | .descriptionEmbedding, v => { m with descriptionEmbedding := v }
  | .schemaVersion, v => { m with schemaVersion := v }
  | .defaultTtlSeconds, v => { m with defaultTtlSeconds := v }
  | .descriptionSource, v => { m with descriptionSource := v }
  | .descriptionStatus, v => { m with descriptionStatus := v }

variable (py isPrintable) in
/-- One of the two writers makes this row. -/
def Writes (m : CollectionMeta J F D) (written : Row) : Prop :=
  (∃ existing, updateCollectionMeta py isPrintable existing m = .ok written) ∨
    ∃ collection, doWriteMetaUnlocked py isPrintable collection m = .ok written

theorem Writes.writtenAs (h : Writes py isPrintable m written) :
    m.WrittenAs py isPrintable written := by
  rcases h with ⟨existing, h⟩ | ⟨collection, h⟩
  · exact (updateCollectionMeta_eq_ok.mp h).2
  · exact (doWriteMetaUnlocked_eq_ok.mp h).2

theorem ns_ne_empty_of_valid {name : String} (h : validateNamespace isPrintable name = .ok ()) :
    name ≠ "" := by
  rintro rfl
  exact absurd (validateNamespace_eq_ok.mp h).2.1 (by decide)

theorem validateNamespace_default (isPrintable : Char → Bool) :
    validateNamespace isPrintable "default" = .ok () :=
  validateNamespace_eq_ok.mpr (by decide +kernel)

theorem Writes.rowToMeta (h : Writes py isPrintable m written) (keeps : Bool) (before : Row) :
    rowToMeta py (Row.merged keeps before written) = some (m.readBack py keeps before) := by
  obtain ⟨hns, -, hstor, rfl⟩ := h.writtenAs
  exact rowToMeta_merged keeps before hstor (ns_ne_empty_of_valid hns)

/-- Both writers write what was read of a stored row, and it is read back. -/
theorem StoredRow.roundTrip {stored : StoredRow isPrintable}
    (h : MetaRow.rowToMeta py stored.toRow = some m) :
    ∃ written, updateCollectionMeta py isPrintable (some stored.ns) m = .ok written ∧
      doWriteMetaUnlocked py isPrintable stored.name m = .ok written ∧
        ∀ keeps, MetaRow.rowToMeta py (Row.merged keeps stored.toRow written) = some m := by
  obtain ⟨hstor, -, hnm, hns⟩ := readBack_of_rowToMeta true h
  have hval : validateNamespace isPrintable m.ns = .ok () := by
    rw [hns]
    cases ho : orNone stored.ns.get with
    | none => exact validateNamespace_default isPrintable
    | some owner => exact stored.ns_valid owner ho
  have hwrt : m.WrittenAs py isPrintable (m.row py) :=
    ⟨hval, hnm ▸ stored.name_valid, hstor, rfl⟩
  refine ⟨m.row py, updateCollectionMeta_eq_ok.mpr ⟨?_, hwrt⟩,
    doWriteMetaUnlocked_eq_ok.mpr ⟨hnm.symm, hwrt⟩, fun keeps => ?_⟩
  · rintro cell ⟨⟩
    exact hns.symm
  · rw [rowToMeta_merged keeps _ hstor (ns_ne_empty_of_valid hval),
      (readBack_of_rowToMeta keeps h).2.1]

theorem updateCollectionMeta_eq_doWriteMetaUnlocked
    (h : SameOwner existing m.ns) : updateCollectionMeta py isPrintable existing m =
      doWriteMetaUnlocked py isPrintable m.name m := by
  unfold updateCollectionMeta doWriteMetaUnlocked
  rw [if_neg (not_not.mpr rfl)]
  refine bind_congr fun _ => bind_congr fun _ => ?_
  cases existing with
  | none => rfl
  | some cell =>
    dsimp only
    rw [if_neg (not_not.mpr (h cell rfl))]

/-- A field that is not the description is replaced alone. -/
theorem readBack_replace (keeps : Bool) {field : Field} (v : field.Value J F D)
    (hm : m.readBack py keeps row = m) (hfield : field ≠ .description) :
    ∃ v', (m.replace field v).readBack py keeps row = m.replace field v' := by
  have h : ∃ v', (m.replace field v).readBack py keeps row =
      (m.readBack py keeps row).replace field v' := by
    cases field with
    | description => exact absurd rfl hfield
    | _ =>
      exact ⟨_, rfl⟩
  obtain ⟨v', hv'⟩ := h
  exact ⟨v', hv'.trans (congrArg (CollectionMeta.replace · field v') hm)⟩

/-- What has a description has a source and a status. -/
theorem describedOr_eq_self {description value : Option String} {default : String}
    (hdes : orNone description ≠ none)
    (hval : describedOr description value default = value) (text : Option String) :
    describedOr text value default = value := by
  unfold describedOr at hval ⊢
  rw [isSome_iff_ne_none.mpr hdes, if_pos rfl] at hval
  cases value with
  | none => cases hval
  | some value => rfl

/-- A description is read with the source and the status of the row, and with those of a row of
old where there are none. -/
theorem readBack_replace_description (keeps : Bool) (text : Option String)
    (hm : m.readBack py keeps row = m) :
    (m.replace .description text).readBack py keeps row =
      { m with
        description := orNone text
        descriptionSource := describedOr text m.descriptionSource "generated"
        descriptionStatus := describedOr text m.descriptionStatus "ok" } := by
  have h : (m.replace .description text).readBack py keeps row =
      { m.readBack py keeps row with
        description := orNone text
        descriptionSource := describedOr text m.descriptionSource "generated"
        descriptionStatus := describedOr text m.descriptionStatus "ok" } := rfl
  rw [h, hm]

/-- **A row that was read and is written again means what it meant**, whichever of the two writers
writes it; the writers do the same; and what is read, modified and written has changed in the
modified field only. The description of a collection that has none brings its source and its
status with it, where these are not set. -/
theorem readModifyWrite_keeps (py : Stdlib J F D) (isPrintable : Char → Bool) :
    (∀ (stored : StoredRow isPrintable) (m : CollectionMeta J F D),
      rowToMeta py stored.toRow = some m →
        ∃ written, updateCollectionMeta py isPrintable (some stored.ns) m = .ok written ∧
          doWriteMetaUnlocked py isPrintable stored.name m = .ok written ∧
            ∀ keeps, rowToMeta py (Row.merged keeps stored.toRow written) = some m) ∧
    (∀ (m : CollectionMeta J F D) (existing : Option (Cell String)), SameOwner existing m.ns →
      updateCollectionMeta py isPrintable existing m =
        doWriteMetaUnlocked py isPrintable m.name m) ∧
    (∀ (row : Row) (m : CollectionMeta J F D) (field : Field) (v : field.Value J F D)
      (written : Row) (keeps : Bool), rowToMeta py row = some m → field ≠ .description →
        Writes py isPrintable (m.replace field v) written →
          ∃ v', rowToMeta py (Row.merged keeps row written) = some (m.replace field v')) ∧
    ∀ (row : Row) (m : CollectionMeta J F D) (text : Option String) (written : Row) (keeps : Bool),
      rowToMeta py row = some m → Writes py isPrintable (m.replace .description text) written →
        rowToMeta py (Row.merged keeps row written) = some
          { m with
            description := orNone text
            descriptionSource := describedOr text m.descriptionSource "generated"
            descriptionStatus := describedOr text m.descriptionStatus "ok" } ∧
        (m.description ≠ none → rowToMeta py (Row.merged keeps row written) =
          some (m.replace .description (orNone text))) := by
  refine ⟨fun stored m h => stored.roundTrip h,
    fun m existing h => updateCollectionMeta_eq_doWriteMetaUnlocked h, ?_, ?_⟩
  · intro row m field v written keeps hrd hfield hwrs
    obtain ⟨v', hv'⟩ := readBack_replace keeps v (readBack_of_rowToMeta keeps hrd).2.1 hfield
    exact ⟨v', (hwrs.rowToMeta keeps row).trans (congrArg some hv')⟩
  intro row m text written keeps hrd hwrs
  have hm := (readBack_of_rowToMeta keeps hrd).2.1
  have haft := (hwrs.rowToMeta keeps row).trans
    (congrArg some (readBack_replace_description keeps text hm))
  refine ⟨haft, fun hdesc => haft.trans (congrArg some ?_)⟩
  have hdes : orNone m.description ≠ none := by
    rwa [show orNone m.description = m.description from congrArg CollectionMeta.description hm]
  have hsrc := describedOr_eq_self hdes (congrArg CollectionMeta.descriptionSource hm) text
  have hstat := describedOr_eq_self hdes (congrArg CollectionMeta.descriptionStatus hm) text
  rw [hsrc, hstat]
  rfl

/-! ### A description alone -/

def tinyLibrary : Stdlib Unit Empty Unit where
  loads text :=
    if text = "[]" then .ok (some ())
    else if text = "null" then .ok none
    else .error .jsonDecodeError
  dumps _ := "[]"
  elements _ := some []
  ofFloats _ := ()
  isfinite _ := true
  floatOfInt _ := none
  fromisoformat text := if text = "2026-01-01T00:00:00+00:00" then some () else none
  isoformat _ := "2026-01-01T00:00:00+00:00"
  loads_empty := rfl
  loads_dumps _ := rfl
  elements_ofFloats xs := by
    cases xs with
    | nil => rfl
    | cons x _ => exact x.elim
  isfinite_floatOfInt _ _ _ := rfl
  fromisoformat_empty := rfl
  fromisoformat_isoformat _ := rfl

def stubRow : Row where
  name := "docs"
  description := some ""
  centroidJson := some ""
  descriptionEmbeddingJson := .value ""
  docCount := some 0
  chunkCount := some 0
  activeEmbeddingModel := .value "bge-small"
  embeddingModel := .missing
  pendingEmbeddingModel := .value ""
  needsReindex := .value false
  reindexJobId := .value ""
  communityRebuildJobId := .value ""
  metadataReindexJobId := .value ""
  lastIndexed := some ""
  lastDescribed := some ""
  describedAtDocCount := some (-1)
  ns := .value "default"
  centroidSumJson := .value ""
  mutationsSinceRecompute := .value 0
  needsRecompute := .value false
  schemaVersion := .value 1
  defaultTtlSeconds := .null
  descriptionSource := .value ""
  descriptionStatus := .value ""

/-- **A description that is written alone changes two more fields**: the source and the status
that were read as none are `generated` and `ok` afterwards. -/
theorem description_alone :
    ((rowToMeta tinyLibrary stubRow).any fun m =>
      m.descriptionSource = none && m.descriptionStatus = none &&
        match updateCollectionMeta tinyLibrary (fun _ => true) (some stubRow.ns)
            (m.replace .description (some "Recipes.")) with
        | .error _ => false
        | .ok written => (rowToMeta tinyLibrary (Row.merged true stubRow written)).any fun after =>
            after.descriptionSource = some "generated" &&
              after.descriptionStatus = some "ok") = true := by
  decide +kernel

end ArchonSearch.Store.MetaRow
