import Mathlib.Data.Nat.Digits.Defs
import ArchonSearch.Acl
import ArchonSearch.Export.Chunk
import ArchonSearch.Lib.Run

/-!
# Ingesting a text

`_ingest_text` turns the text of a document into chunks and persists them: the front matter is
taken off, the ACL is resolved, the text is cut into pieces, each piece becomes a record with its
chunk id, and then the rows of the document are deleted and the records are added, a batch at a
time. Up to the deletion nothing touches the table; this first half is a function of the request
and of its collaborators (`prepare`). The second half is a machine, one step a call to the store
(`Task`): each call may return, be refused because the store is busy, or raise.

The parser of YAML, the splitter, the enrichers, the detector of languages and the embedder are
collaborators (`Services`); nothing is asked of them.
-/

namespace ArchonSearch.Ingest

open Lib Py Export Acl List Option

/-! ### The front matter -/

/-- The characters before and after the first occurrence of `\n---`. -/
def splitAtDelimiter : List Char → Option (List Char × List Char)
  | [] => none
  | c :: cs =>
    match c, cs with
    | '\n', '-' :: '-' :: '-' :: rest => some ([], rest)
    | c, cs => (splitAtDelimiter cs).map fun p => (c :: p.1, p.2)

/-- `lstrip("\r\n")`. -/
def lstripNewlines (cs : List Char) : List Char := cs.dropWhile fun c => c = '\r' ∨ c = '\n'

/-- `_extract_front_matter`; `safeLoad` are the members of the mapping that a text spells,
if it spells one. -/
def extractFrontMatter (safeLoad : String → Option (List (String × YamlValue)))
    (text : String) : List (String × YamlValue) × String :=
  match text.toList with
  | '-' :: '-' :: '-' :: c :: rest =>
    if c = '\n' ∨ c = '\r' then
      -- the block may be empty: its closing delimiter is looked for from the line end on
      match splitAtDelimiter (c :: rest) with
      | none => ([], text)
      | some (block, body) =>
        match safeLoad (String.ofList (block.drop 1)) with
        | none => ([], text)
        | some members => (members, String.ofList (lstripNewlines body))
    else ([], text)
  | _ => ([], text)

/-! ### The ACL -/

/-- `AclResolutionResult`. -/
structure AclResolutionResult where
  acl : Option (List String)
  (source sidecarPath : Option String)
  warnings : List String

structure Sidecar where
  path : String
  /-- `sidecar.exists()`. -/
  pathExists : Bool
  /-- `read_acl_sidecar`. -/
  read : AclResolutionResult

/-- `resolve_acl`; a declared null is no declaration. -/
def resolveAcl (docPath : String) (frontMatterAcl : Option YamlValue) (allowSidecar : Bool)
    (sidecar : Sidecar) : AclResolutionResult :=
  match frontMatterAcl with
  | some .null | none =>
    if allowSidecar then sidecar.read else ⟨none, none, none, []⟩
  | some declared =>
    let (acl, warnings) := parseAclValue declared docPath
    let shadow :=
      if allowSidecar && sidecar.pathExists then
        ["Both front-matter _acl and sidecar " ++ sidecar.path ++ " exist for " ++ docPath ++
          "; front-matter takes precedence"]
      else []
    ⟨acl, some "frontmatter", none, warnings ++ shadow⟩

/-! ### Requests and collaborators -/

structure Piece where
  text : String
  (startOffset endOffset : ℤ)

/-- The arguments of `_ingest_text`, and what it finds on disk. -/
structure Request where
  (markdown path : String)
  /-- `path.suffix.lower()`. -/
  (suffix docId : String)
  ingestedBy : IngestedBy
  chunkTtlSeconds : Option ℤ
  chunkScopes : Option (List String)
  diskBacked : Bool
  /-- The sidecar beside `path`. -/
  sidecar : Sidecar
  /-- The modification time of `path`, empty if there is none. -/
  updatedAt : String

/-- `GraphExtractor.extract`, as far as an ingest looks at it. -/
inductive Extraction where
  | proceeds
  /-- `fatal_error`. -/
  | fatal

/-- The collaborators of the pipeline; `θ` are the tables of an enricher, `τ` the
instants. -/
structure Services (θ τ : Type) where
  /-- `yaml.safe_load`, where it gives a mapping. -/
  safeLoad : String → Option (List (String × YamlValue))
  /-- The path of a sidecar relative to `collection_root`. -/
  relativeTo : String → Option String
  baseName : String → String
  /-- `prepare` or `preprocess` of the enricher: the text to be cut, and the tables. -/
  enricher : (suffix : String) → String → String × θ
  /-- `detect`; empty where there is no detector, or it raises. -/
  detect : String → String
  recursiveChunk : String → List Piece
  noScopes : θ → Bool
  buildSegments : String → θ → List Piece
  enrichChunk : θ → Piece → List (String × String)
  indexedAt : String
  /-- `default_ttl_seconds` of the collection; none where reading the row raises. -/
  defaultTtlSeconds : Option (Option ℤ)
  deadline : ℤ → Option τ
  extract : List Piece → Extraction
  embed : List String → List (List (BitVec 32))

/-- `_FRONT_MATTER_EXTENSIONS`. -/
def frontMatterExtensions : List String := [".md", ".txt", ".rst", ".html"]

/-- `CODE_EXTENSIONS`. -/
def codeExtensions : List String :=
  [".py", ".ts", ".js", ".go", ".rs", ".java", ".sh", ".swift", ".cs"]

/-- `INLINE_CHUNK_METADATA_KEY` and its value. -/
def inlineMarker : String × String := ("_inline", "true")

/-- `_INGEST_CHUNK_BATCH_SIZE`. -/
def ingestChunkBatchSize : ℕ := 512

/-! ### From the text to its records -/

variable {φ τ θ : Type} (codec : Codec φ τ) (services : Services θ τ) (req : Request)

def frontMatter : List (String × YamlValue) × String :=
  if req.suffix ∈ frontMatterExtensions then extractFrontMatter services.safeLoad req.markdown
  else ([], req.markdown)

def resolvedAcl : AclResolutionResult :=
  resolveAcl req.path ((frontMatter services req).1.lookup "_acl") req.diskBacked req.sidecar

/-- `_acl_sidecar_path`, and the warnings of the provenance. -/
def aclProvenance : Option String × List String :=
  let acl := resolvedAcl services req
  match acl.sidecarPath with
  | none => (none, acl.warnings)
  | some path =>
    match services.relativeTo path with
    | some relative => (some relative, acl.warnings)
    | none =>
      (some (services.baseName path), acl.warnings ++
        ["acl_sidecar_path truncated to filename: sidecar outside collection_root or " ++
          "collection_root unavailable"])

def enriched : String × θ := services.enricher req.suffix (frontMatter services req).2

/-- `DocumentChunker.chunk` and `ASTChunker.chunk`: a text of white space has no piece. -/
def pieces : List Piece :=
  let (text, tables) := enriched services req
  if strip text = "" then []
  else if req.suffix ∈ codeExtensions ∧ services.noScopes tables = false then
    services.buildSegments text tables
  else services.recursiveChunk text

/-- `_effective_ttl`: that of the request, or that of the collection. -/
def effectiveTtl : Option (Option ℤ) :=
  match req.chunkTtlSeconds with
  | some ttl => some (some ttl)
  | none => services.defaultTtlSeconds

/-- `_expires_at`; none where it raises. -/
def resolvedExpiry : Option (Option String) :=
  (effectiveTtl services req).bind fun
    | none => some none
    | some ttl => (services.deadline ttl).map fun t => some (codec.strftime t ++ "Z")

/-- `_scopes`: an empty list is none. -/
def resolvedScopes : Option (List String) :=
  match req.chunkScopes with
  | some [] => none
  | scopes => scopes

/-- `f"{n:06d}"`. -/
def sixDigits (n : ℕ) : String :=
  let digits := Nat.digits 10 n
  String.ofList ((digits ++ List.replicate (6 - digits.length) 0).reverse.map Nat.digitChar)

def chunkIdAt (docId : String) (idx : ℕ) : String := docId ++ "-" ++ sixDigits idx

def metadataOf (piece : Piece) : Metadata :=
  let enrichment := services.enrichChunk (enriched services req).2 piece
  let metadata : Metadata := enrichment.foldl Keyed.insert Keyed.empty
  if req.diskBacked then metadata else metadata.insert inlineMarker

def recordOf (expiresAt : Option String) (idx : ℕ) (piece : Piece) : ChunkRecord φ where
  docId := some req.docId
  chunkId := chunkIdAt req.docId idx
  text := some piece.text
  sourcePath := some req.path
  indexedAt := some services.indexedAt
  fileType := String.ofList ((req.suffix.toList).dropWhile (· = '.'))
  language := services.detect (enriched services req).1
  metadata := metadataOf services req piece
  acl := (resolvedAcl services req).acl
  customScore := none
  ingestedBy := req.ingestedBy
  updatedAt := req.updatedAt
  expiresAt := expiresAt
  scopes := resolvedScopes req
  aclSource := some ((resolvedAcl services req).source.getD "collection_default")
  aclSidecarPath := (aclProvenance services req).1
  aclWarning := (aclProvenance services req).2
  vector := []

/-! ### Batches -/

/-- The slices of a list, `size` items each. -/
def slices {α : Type*} (size : ℕ) (l : List α) : List (List α) :=
  (List.range ((l.length + size - 1) / size)).map fun k => (l.drop (k * size)).take size

def embedBatch (batch : List (ChunkRecord φ)) : List (ChunkRecord φ) :=
  let vectors := services.embed (batch.map fun record => record.text.getD "")
  batch.mapIdx fun i record => { record with vector := (vectors[i]?).getD record.vector }

def batchesOf (expiresAt : Option String) : List (List (ChunkRecord φ)) :=
  let records := (pieces services req).mapIdx (recordOf services req expiresAt)
  (slices ingestChunkBatchSize records).map (embedBatch services)

/-! ### Running -/

/-- How `_ingest_text` ends. -/
inductive Outcome where
  /-- `status = "ok"`. -/
  | ok
  /-- `status = "error"`. -/
  | error
  | raised

/-- A running `_ingest_text`, by the call it makes next. -/
inductive Task (φ : Type) where
  /-- `ensure_collection` and `delete_document`. -/
  | deleting : List (List (ChunkRecord φ)) → Task φ
  /-- `ingest_chunks`, of the first batch. -/
  | adding : List (ChunkRecord φ) → List (List (ChunkRecord φ)) → Task φ
  | finishing
  | ended : Outcome → Task φ

def Task.ofBatches : List (List (ChunkRecord φ)) → Task φ
  | [] => .finishing
  | batch :: batches => .adding batch batches

/-- The first half of `_ingest_text`, up to the first call that writes. -/
def prepare : Task φ :=
  if pieces services req = [] then .ended .ok
  else
    match resolvedExpiry codec services req with
    | none => .ended .raised
    | some expiresAt =>
      match services.extract (pieces services req) with
      | .fatal => .ended .error
      | .proceeds => .deleting (batchesOf services req expiresAt)

inductive Reply where
  | returns
  /-- It raises `StoreBusyError`. -/
  | busy
  | raises
  | raisesAfter

/-- `_DOC_ID_RE`. -/
def isValidDocId (s : String) : Bool := s.toList.length = 64 && s.toList.all isHexDigit

def ofDoc (docId : String) (r : StoredRow φ) : Bool := r.docId = some docId

/-- The next call of a task that ingests a document into a table with these rows. The
document id and the records are checked before the collection lock is waited for. -/
def Task.step (cols : Columns) (docId : String) :
    Task φ → List (StoredRow φ) → Reply → Option (Task φ × List (StoredRow φ))
  | .deleting batches, rows, reply =>
    if isValidDocId docId then
      let deleted := rows.filter fun r => !ofDoc docId r
      match reply with
      | .returns => some (.ofBatches batches, deleted)
      | .busy => some (.ended .error, rows)
      | .raises => some (.ended .raised, rows)
      | .raisesAfter => some (.ended .raised, deleted)
    else some (.ended .raised, rows)
  | .adding batch batches, rows, reply =>
    if batch.all fun record => validateChunkRecord codec record.toChunkFields then
      match reply, batch.mapM (ingestChunk codec cols) with
      | .returns, some added => some (.ofBatches batches, rows ++ added)
      | .busy, _ => some (.ended .error, rows)
      | .raisesAfter, some added => some (.ended .raised, rows ++ added)
      | _, _ => some (.ended .raised, rows)
    else some (.ended .raised, rows)
  | .finishing, rows, reply =>
    match reply with
    | .returns => some (.ended .ok, rows)
    | _ => some (.ended .raised, rows)
  | .ended _, _, _ => none

/-! ### Chunk ids -/

/-- Decimal digits are read back from their characters. -/
theorem map_digitChar_inj {l l' : List ℕ} (hl : ∀ d ∈ l, d < 10) (hl' : ∀ d ∈ l', d < 10)
    (h : l.map Nat.digitChar = l'.map Nat.digitChar) : l = l' := by
  have hback : ∀ m : List ℕ, (∀ d ∈ m, d < 10) →
      (m.map Nat.digitChar).map (fun c => c.toNat - 48) = m := by
    intro m hm
    rw [List.map_map]
    refine (map_congr_left fun d hd => ?_).trans (List.map_id m)
    simp [Nat.toNat_digitChar_of_lt_ten (hm d hd)]
  rw [← hback l hl, h, hback l' hl']

theorem sixDigits_injective : Function.Injective sixDigits := by
  intro m n h
  have hlt : ∀ k, ∀ d ∈ Nat.digits 10 k ++ List.replicate (6 - (Nat.digits 10 k).length) 0,
      d < 10 := by
    intro k d hd
    rcases mem_append.mp hd with hd | hd
    · exact Nat.digits_lt_base (by norm_num) hd
    · rw [eq_of_mem_replicate hd]
      norm_num
  have hmap := String.ofList_injective h
  rw [map_reverse, map_reverse, reverse_inj] at hmap
  have hdig := congrArg (Nat.ofDigits 10) (map_digitChar_inj (hlt m) (hlt n) hmap)
  rwa [Nat.ofDigits_append_replicate_zero, Nat.ofDigits_append_replicate_zero,
    Nat.ofDigits_digits, Nat.ofDigits_digits] at hdig

theorem chunkIdAt_injective (docId : String) : Function.Injective (chunkIdAt docId) := by
  intro m n h
  exact sixDigits_injective (String.append_right_inj _ |>.mp h)

/-! ### Slices -/

variable {α : Type*}

theorem flatten_take_slices (size : ℕ) (l : List α) (n : ℕ) :
    ((List.range n).map fun k => (l.drop (k * size)).take size).flatten = l.take (n * size) := by
  induction n with
  | zero => simp
  | succ n ih =>
    rw [range_succ, map_append, flatten_append, ih, Nat.succ_mul, take_add]
    simp

theorem flatten_slices {size : ℕ} (hsize : 0 < size) (l : List α) :
    (slices size l).flatten = l := by
  rw [slices, flatten_take_slices]
  refine take_of_length_le ?_
  have hdiv := Nat.lt_div_mul_add hsize (a := l.length + size - 1)
  omega

/-! ### What is added -/

variable {codec services req} {cols : Columns}

theorem ingestChunk_eq_some {c : ChunkRecord φ} {r : StoredRow φ}
    (h : ingestChunk codec cols c = some r) : r = rowOf codec cols c := by
  unfold ingestChunk at h
  split_ifs at h
  exact (some.inj h).symm

theorem mapM_ingestChunk_eq_some {records : List (ChunkRecord φ)}
    {rows : List (StoredRow φ)} (h : records.mapM (ingestChunk codec cols) = some rows) :
    rows = records.map (rowOf codec cols) := by
  induction records generalizing rows with
  | nil => simpa using h.symm
  | cons record records ih =>
    simp only [mapM_cons, bind_eq_bind, bind_eq_some_iff] at h
    obtain ⟨row, hr, rows', hrw', hrw⟩ := h
    rw [map_cons, ← ih hrw', ← ingestChunk_eq_some hr]
    exact (some.inj hrw).symm

theorem map_toChunkFields_embedBatch (batch : List (ChunkRecord φ)) :
    (embedBatch services batch).map ChunkRecord.toChunkFields =
      batch.map ChunkRecord.toChunkFields := by
  refine ext_getElem (by simp [embedBatch]) fun i _ _ => ?_
  simp [embedBatch]

/-- The batches hold the records of the pieces, in their order. -/
theorem map_toChunkFields_batchesOf (expiresAt : Option String) :
    (batchesOf services req expiresAt : List (List (ChunkRecord φ))).flatten.map
        ChunkRecord.toChunkFields =
      (pieces services req).mapIdx fun i piece =>
        (recordOf services req expiresAt i piece : ChunkRecord φ).toChunkFields := by
  set records : List (ChunkRecord φ) :=
    (pieces services req).mapIdx (recordOf services req expiresAt) with hrecs
  calc (batchesOf services req expiresAt : List (List (ChunkRecord φ))).flatten.map
          ChunkRecord.toChunkFields
      = (((slices ingestChunkBatchSize records).map (embedBatch services)).map
          (List.map ChunkRecord.toChunkFields)).flatten := map_flatten
    _ = ((slices ingestChunkBatchSize records).map
          (List.map ChunkRecord.toChunkFields)).flatten := by
        rw [List.map_map]
        congr 1
        exact map_congr_left fun batch _ => map_toChunkFields_embedBatch batch
    _ = records.map ChunkRecord.toChunkFields := by
        rw [← map_flatten, flatten_slices (by decide)]
    _ = _ := by
        refine ext_getElem (by simp [hrecs]) fun i _ _ => ?_
        simp [hrecs]

/-! ### What a call does -/

/-- What the next call of a task does: it ends the task without `ok`, it deletes the rows
of the document, it adds a batch, or it is the last one. -/
theorem Task.step_cases {docId : String} {t t' : Task φ}
    {rows rows' : List (StoredRow φ)} {reply : Reply}
    (h : t.step codec cols docId rows reply = some (t', rows')) :
    (∃ o, o ≠ .ok ∧ t' = .ended o) ∨
    (∃ batches, t = .deleting batches ∧ t' = .ofBatches batches ∧
      rows' = rows.filter fun r => !ofDoc docId r) ∨
    (∃ batch batches added, t = .adding batch batches ∧
      batch.mapM (ingestChunk codec cols) = some added ∧ t' = .ofBatches batches ∧
      rows' = rows ++ added) ∨
    (t = .finishing ∧ t' = .ended .ok ∧ rows' = rows) := by
  cases t with
  | deleting batches =>
    simp only [Task.step] at h
    split_ifs at h
    · cases reply <;> obtain ⟨rfl, rfl⟩ := Prod.mk.inj (some.inj h)
      · exact Or.inr (Or.inl ⟨batches, rfl, rfl, rfl⟩)
      all_goals exact Or.inl ⟨_, by simp, rfl⟩
    · obtain ⟨rfl, rfl⟩ := Prod.mk.inj (some.inj h)
      exact Or.inl ⟨_, by simp, rfl⟩
  | adding batch batches =>
    simp only [Task.step] at h
    split_ifs at h
    · cases hbat : batch.mapM (ingestChunk codec cols) <;> rw [hbat] at h <;>
        cases reply <;> obtain ⟨rfl, rfl⟩ := Prod.mk.inj (some.inj h)
      case some.returns added =>
        exact Or.inr (Or.inr (Or.inl ⟨batch, batches, added, rfl, hbat, rfl, rfl⟩))
      all_goals exact Or.inl ⟨_, by simp, rfl⟩
    · obtain ⟨rfl, rfl⟩ := Prod.mk.inj (some.inj h)
      exact Or.inl ⟨_, by simp, rfl⟩
  | finishing =>
    cases reply <;> obtain ⟨rfl, rfl⟩ := Prod.mk.inj (some.inj h)
    · exact Or.inr (Or.inr (Or.inr ⟨rfl, rfl, rfl⟩))
    all_goals exact Or.inl ⟨_, by simp, rfl⟩
  | ended o => cases h

end ArchonSearch.Ingest
