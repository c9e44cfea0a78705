import ArchonSearch.Import.Archive
import ArchonSearch.Lib.Keyed
import ArchonSearch.Py.Base64
import ArchonSearch.Py.Json

/-!
# A chunk in an archive

An export writes the rows of a collection as JSON documents, one a line: the columns as the readers
of the store decode them, the vector as base64 text, the metadata as the JSON text it is stored as.
An import types every member again, puts the imported marker into the metadata and stores the chunk
as any ingest does.

Floats are the float32 values that the columns keep, and a text that holds JSON is kept as the value
it spells. What is left to the standard library are the conversion of a float from and to a JSON
number, and the reading and writing of date-times (`Codec`); all that is asked of it is that it
reads back what it has written (`Codec.Lawful`).
-/

namespace ArchonSearch.Export

open Lib Py List Option

/-! ### Chunks -/

/-- `IngestedBy`. -/
inductive IngestedBy where
  | cli
  | http
  | watcher
  | reindex
  deriving DecidableEq

/-- The text of an `IngestedBy`. -/
def IngestedBy.value : IngestedBy → String
  | cli => "cli"
  | http => "http"
  | watcher => "watcher"
  | reindex => "reindex"

/-- `INGESTED_BY_VALUES`. -/
def ingestedByValues : List IngestedBy := [.cli, .http, .watcher, .reindex]

/-- `normalize_ingested_by`: a missing, legacy or unknown value is `cli`. -/
def normalizeIngestedBy : Option String → IngestedBy
  | none => .cli
  | some s =>
    if s = "" ∨ s = "archon-search-cli" then .cli
    else (ingestedByValues.find? fun b => b.value = s).getD .cli

@[simp] theorem normalizeIngestedBy_value (b : IngestedBy) :
    normalizeIngestedBy (some b.value) = b := by
  cases b <;> decide

/-- The metadata of a chunk, a `dict[str, str]`. -/
abbrev Metadata := Keyed (Prod.fst : String × String → String)

/-- The fields of a `ChunkRecord` other than the vector. Those that may be `none`
although they are declared `str` are so in records decoded from an archive with nulls. -/
structure ChunkFields (φ : Type) where
  docId : Option String
  chunkId : String
  (text sourcePath indexedAt : Option String)
  (fileType language : String)
  metadata : Metadata
  acl : Option (List String)
  customScore : Option φ
  ingestedBy : IngestedBy
  updatedAt : String
  expiresAt : Option String
  scopes : Option (List String)
  (aclSource aclSidecarPath : Option String)
  aclWarning : List String

/-- A `ChunkRecord`. -/
structure ChunkRecord (φ : Type) extends ChunkFields φ where
  /-- `vector`: float32 components. -/
  vector : List (BitVec 32)

/-- A row of a chunk table; a null is `none`. -/
structure StoredRow (φ : Type) where
  docId : Option String
  chunkId : String
  text : Option String
  vector : List (BitVec 32)
  (sourcePath indexedAt : Option String)
  (fileType language : String)
  /-- `metadata`, the text of a JSON object. -/
  metadata : Metadata
  customScore : Option φ
  ingestedBy : String
  updatedAt : Option String
  acl : Option (List String)
  expiresAt : Option String
  scopes : Option (List String)
  (aclSource aclSidecarPath : Option String)
  aclWarning : Option (List String)

/-! ### What is left to the library -/

/-- Numbers and date-times: `φ` are the float32 values, `τ` the instants. -/
structure Codec (φ τ : Type) where
  /-- The number `json.dumps` writes for a float. -/
  ofFloat : φ → Json
  /-- `float(…)` of a JSON value, as the column keeps it; none where it raises. -/
  toFloat : Json → Option φ
  /-- `datetime.fromisoformat` and the conversion to UTC; none where they raise. -/
  fromIsoFormat : String → Option τ
  /-- `strftime("%Y-%m-%dT%H:%M:%S.%f")` of an instant in UTC. -/
  strftime : τ → String

/-- What is written is read back. -/
structure Codec.Lawful {φ τ : Type} (codec : Codec φ τ) : Prop where
  toFloat_ofFloat : ∀ x, codec.toFloat (codec.ofFloat x) = some x
  ofFloat_ne : ∀ x, codec.ofFloat x ≠ .null
  /-- `fromisoformat` reads the ISO form with a UTC offset. -/
  fromIsoFormat_strftime : ∀ t, codec.fromIsoFormat (codec.strftime t ++ "+00:00") = some t

variable {φ τ : Type} (codec : Codec φ τ)

/-- `normalize_iso_utc` of a string. -/
def normalizeIsoUtc (dt : String) : Option String :=
  let normalised :=
    if dt.toList.getLast? = some 'Z' then String.ofList dt.toList.dropLast ++ "+00:00" else dt
  (codec.fromIsoFormat normalised).map fun t => codec.strftime t ++ "Z"

/-! ### The checks and the storage of an ingest -/

/-- `META_MAX_FIELDS`. -/
def metaMaxFields : ℕ := 50

/-- `_META_MAX_KEY_LEN`. -/
def metaMaxKeyLen : ℕ := 256

/-- `_META_MAX_VAL_LEN`. -/
def metaMaxValLen : ℕ := 4096

/-- `validate_metadata`, for keys and values that are strings. -/
def validateMetadata (m : Metadata) : Bool :=
  m.items.length ≤ metaMaxFields &&
    m.items.all fun kv => kv.1.length ≤ metaMaxKeyLen && kv.2.length ≤ metaMaxValLen

def isHexDigit (c : Char) : Bool := c.isDigit || ('a' ≤ c && c ≤ 'f')

/-- `is_valid_chunk_id`: 64 hexadecimal digits, a dash and six digits. -/
def isValidChunkId (s : String) : Bool :=
  let cs := s.toList
  cs.length = 71 && (cs.take 64).all isHexDigit && cs[64]? = some '-' &&
    (cs.drop 65).all Char.isDigit

/-- `validate_chunk_record`. -/
def validateChunkRecord (c : ChunkFields φ) : Bool :=
  isValidChunkId c.chunkId && validateMetadata c.metadata &&
    c.expiresAt.all fun e => (normalizeIsoUtc codec e).isSome

structure Columns where
  /-- `expires_at` and `scopes`. -/
  hasTtl : Bool
  /-- `acl_source`, `acl_sidecar_path` and `acl_warning`. -/
  hasAclProvenance : Bool

/-- The columns of a table created by `ensure_collection`. -/
def Columns.all : Columns := ⟨true, true⟩

/-- The row `_do_ingest` builds. -/
def rowOf (cols : Columns) (c : ChunkRecord φ) : StoredRow φ where
  docId := c.docId
  chunkId := c.chunkId
  text := c.text
  vector := c.vector
  sourcePath := c.sourcePath
  indexedAt := c.indexedAt
  fileType := c.fileType
  language := c.language
  metadata := c.metadata
  customScore := c.customScore
  ingestedBy := c.ingestedBy.value
  updatedAt := if c.updatedAt = "" then c.indexedAt else some c.updatedAt
  acl := c.acl
  expiresAt := if cols.hasTtl then c.expiresAt.bind (normalizeIsoUtc codec) else none
  scopes := if cols.hasTtl then c.scopes else none
  aclSource := if cols.hasAclProvenance then c.aclSource else none
  aclSidecarPath := if cols.hasAclProvenance then c.aclSidecarPath else none
  aclWarning :=
    if cols.hasAclProvenance then (if c.aclWarning = [] then none else some c.aclWarning)
    else none

/-- What `ingest_chunks` does with one chunk of a batch: it refuses it, or stores a
row. LanceDB refuses a vector with a component that is not a number. -/
def ingestChunk (cols : Columns) (c : ChunkRecord φ) : Option (StoredRow φ) :=
  if validateChunkRecord codec c.toChunkFields && !c.vector.any Import.isNan then
    some (rowOf codec cols c)
  else none

/-! ### Documents -/

/-- The member `metadata` of an archived document. -/
inductive ArchivedMetadata where
  | absent
  | emptyText
  | text : Option Json → ArchivedMetadata
  | value : Json → ArchivedMetadata

structure Doc where
  /-- Its members other than `metadata`. -/
  members : Py.Row
  /-- Its member `metadata`. -/
  metadata : ArchivedMetadata

def jsonOptStr : Option String → Json
  | none => .null
  | some s => .str s

def jsonStrList : Option (List String) → Json
  | none => .null
  | some items => .arr (items.map .str)

/-- `list_chunks_raw`, and the vector as `_export_task` encodes it: the document
written for a row. -/
def exportDoc (r : StoredRow φ) : Doc where
  members :=
    [("doc_id", jsonOptStr r.docId), ("chunk_id", .str r.chunkId), ("text", jsonOptStr r.text),
      ("vector", .str (b64encode (packWords r.vector))),
      ("source_path", jsonOptStr r.sourcePath), ("file_type", .str r.fileType),
      ("language", .str r.language), ("indexed_at", .str (r.indexedAt.getD "")),
      ("updated_at", .str
        (match r.updatedAt with
        | none | some "" => r.indexedAt.getD ""
        | some s => s)),
      ("ingested_by", .str (normalizeIngestedBy r.ingestedBy).value),
      ("custom_score", (r.customScore.map codec.ofFloat).getD .null),
      ("expires_at", jsonOptStr r.expiresAt), ("acl", jsonStrList r.acl),
      ("scopes", jsonStrList r.scopes), ("acl_source", jsonOptStr r.aclSource),
      ("acl_sidecar_path", jsonOptStr r.aclSidecarPath),
      ("acl_warning", jsonStrList (some (r.aclWarning.getD [])))]
  metadata := .text (some (.obj (r.metadata.items.map fun kv => (kv.1, .str kv.2))))

/-! ### Decoding -/

/-- `IMPORTED_CHUNK_METADATA_KEY`. -/
def importedChunkMetadataKey : String := "_imported"

/-- `IMPORTED_CHUNK_METADATA_VALUE`. -/
def importedChunkMetadataValue : String := "true"

/-- `_archived_optional_str`; none where it raises. -/
def archivedOptionalStr (members : Py.Row) (field : String) : Option (Option String) :=
  match members.getD field .null with
  | .null => some none
  | .str s => some (some s)
  | _ => none

/-- `_archived_required_str`. -/
def archivedRequiredStr (members : Py.Row) (field : String) : Option (Option String) :=
  (members.lookup field).bind fun _ => archivedOptionalStr members field

def asStr : Json → Option String
  | .str s => some s
  | _ => none

/-- `_archived_optional_str_list`. -/
def archivedOptionalStrList (members : Py.Row) (field : String) :
    Option (Option (List String)) :=
  match members.getD field .null with
  | .null => some none
  | .arr items => (items.mapM asStr).map some
  | _ => none

/-- `raw_meta`, which has to be an object for its members to be taken over. -/
def rawMeta : ArchivedMetadata → Option Py.Row
  | .absent => some []
  | .emptyText => some []
  | .text (some (.obj fields)) => some fields
  | .value (.obj fields) => some fields
  | _ => none

def stamp (m : Metadata) : Metadata :=
  m.insert (importedChunkMetadataKey, importedChunkMetadataValue)

/-- The stamped metadata; none when one of its values is not a string. The value of the
marker itself is replaced, whatever it is. -/
def stampRaw (raw : Py.Row) : Option Metadata :=
  (raw.mapM fun kv =>
    if kv.1 = importedChunkMetadataKey then some (kv.1, importedChunkMetadataValue)
    else (asStr kv.2).map fun v => (kv.1, v)).map fun items => stamp (.ofList items)

/-- `custom_score`, as `float(…)` converts it. -/
def archivedScore (members : Py.Row) : Option (Option φ) :=
  match members.getD "custom_score" .null with
  | .null => some none
  | v => (codec.toFloat v).map some

def orMalformed {α : Type*} : Option α → Except Import.FieldError α
  | none => .error .malformed
  | some a => .ok a

/-- `_decode_chunk`, from the fields on: first the typed members, then the room for the
marker, then `validate_chunk_record`. -/
def decodeFields (d : Doc) : Except Import.FieldError (ChunkFields φ) := do
  let raw ← orMalformed (rawMeta d.metadata)
  let docId ← orMalformed (archivedRequiredStr d.members "doc_id")
  let chunkId ← orMalformed (d.members.lookup "chunk_id")
  let text ← orMalformed (archivedRequiredStr d.members "text")
  let sourcePath ← orMalformed (archivedRequiredStr d.members "source_path")
  let indexedAt ← orMalformed (archivedRequiredStr d.members "indexed_at")
  let fileType ← orMalformed (archivedOptionalStr d.members "file_type")
  let language ← orMalformed (archivedOptionalStr d.members "language")
  let acl ← orMalformed (archivedOptionalStrList d.members "acl")
  let ingestedBy ← orMalformed (archivedOptionalStr d.members "ingested_by")
  let updatedAt ← orMalformed (archivedOptionalStr d.members "updated_at")
  let scopes ← orMalformed (archivedOptionalStrList d.members "scopes")
  let aclSource ← orMalformed (archivedOptionalStr d.members "acl_source")
  let aclSidecarPath ← orMalformed (archivedOptionalStr d.members "acl_sidecar_path")
  let aclWarning ← orMalformed (archivedOptionalStrList d.members "acl_warning")
  if raw.lookup importedChunkMetadataKey = none ∧ raw.length = metaMaxFields then
    throw .noRoom
  let chunkId ← orMalformed (asStr chunkId)
  let metadata ← orMalformed (stampRaw raw)
  let customScore ← orMalformed (archivedScore codec d.members)
  let expiresAt ← orMalformed (archivedOptionalStr d.members "expires_at")
  let chunk : ChunkFields φ :=
    { docId, chunkId, text, sourcePath, indexedAt
      fileType := fileType.getD ""
      language := language.getD ""
      metadata, acl, customScore
      ingestedBy := normalizeIngestedBy ingestedBy
      updatedAt := updatedAt.getD ""
      expiresAt, scopes, aclSource, aclSidecarPath
      aclWarning := aclWarning.getD [] }
  if validateChunkRecord codec chunk then return chunk else throw .malformed

def decoder : Import.Decoder Doc (ChunkFields φ) where
  words d :=
    match d.members.lookup "vector" with
    | some (.str s) => (b64decode s).bind unpackWords
    | _ => none
  fields d := (decodeFields codec d).map fun c => (c.chunkId, c.indexedAt.getD "", c)

/-- `_decode_chunk`. -/
def decodeChunk (d : Doc) (lineNumber : ℕ) (embeddingDim : Option ℕ) :
    Except Import.Rejection (ChunkRecord φ) :=
  (Import.decodeChunk (decoder codec) d lineNumber embeddingDim).map fun c =>
    { c.others with vector := c.vector }

variable {codec}

theorem normalizeIsoUtc_strftime (lawful : codec.Lawful) (t : τ) :
    normalizeIsoUtc codec (codec.strftime t ++ "Z") = some (codec.strftime t ++ "Z") := by
  have hl : (codec.strftime t ++ "Z").toList = (codec.strftime t).toList ++ ['Z'] := by
    simp
  have hback : String.ofList (codec.strftime t).toList = codec.strftime t := by simp
  simp [normalizeIsoUtc, hl, hback, lawful.fromIsoFormat_strftime t]

def sampleCodec : Codec ℚ Unit where
  ofFloat := .float
  toFloat
    | .float q => some q
    | .int n => some n
    | _ => none
  fromIsoFormat s := if s = "2027-01-01T00:00:00.000000+00:00" then some () else none
  strftime _ := "2027-01-01T00:00:00.000000"

theorem sampleCodec_lawful : sampleCodec.Lawful where
  toFloat_ofFloat _ := rfl
  ofFloat_ne _ := Json.noConfusion
  fromIsoFormat_strftime | () => by decide

/-! ### What is read of an exported row -/

variable {members : Py.Row} {field : String} {o : Option String}

theorem archivedOptionalStr_of_lookup
    (h : members.lookup field = some (jsonOptStr o)) :
    archivedOptionalStr members field = some o := by
  have hg : members.getD field .null = jsonOptStr o := by rw [Row.getD, h]; rfl
  cases o <;> simp [archivedOptionalStr, hg, jsonOptStr]

theorem archivedRequiredStr_of_lookup
    (h : members.lookup field = some (jsonOptStr o)) :
    archivedRequiredStr members field = some o := by
  rw [archivedRequiredStr, h]
  exact archivedOptionalStr_of_lookup h

theorem mapM_asStr (items : List String) : (items.map Json.str).mapM asStr = some items := by
  induction items with
  | nil => rfl
  | cons s items ih => simp [asStr, ih]

theorem archivedOptionalStrList_of_lookup
    {o : Option (List String)} (h : members.lookup field = some (jsonStrList o)) :
    archivedOptionalStrList members field = some o := by
  have hg : members.getD field .null = jsonStrList o := by rw [Row.getD, h]; rfl
  cases o with
  | none => simp [archivedOptionalStrList, hg, jsonStrList]
  | some items =>
    simp only [archivedOptionalStrList, hg, jsonStrList, mapM_asStr, map_some]

theorem archivedScore_of_lookup (lawful : codec.Lawful) {o : Option φ}
    (h : members.lookup "custom_score" = some ((o.map codec.ofFloat).getD .null)) :
    archivedScore codec members = some o := by
  have hg : members.getD "custom_score" .null = (o.map codec.ofFloat).getD .null := by
    rw [Row.getD, h]
    rfl
  cases o with
  | none => simp [archivedScore, hg]
  | some x =>
    have hne := lawful.ofFloat_ne x
    have hx := lawful.toFloat_ofFloat x
    simp [archivedScore, hg, hx]

def replaceMarker (kv : String × String) : String × String :=
  if kv.1 = importedChunkMetadataKey then (kv.1, importedChunkMetadataValue) else kv

@[simp] theorem replaceMarker_fst (kv : String × String) : (replaceMarker kv).1 = kv.1 := by
  unfold replaceMarker
  split_ifs <;> rfl

/-- Stamping does not look at the value the marker has. -/
theorem stamp_map_replaceMarker (m : Metadata) :
    stamp (m.map replaceMarker replaceMarker_fst) = stamp m := by
  ext1
  have hks : (m.items.map replaceMarker).map Prod.fst = m.items.map Prod.fst := by simp
  show Keyed.insertItems Prod.fst _ (m.items.map replaceMarker) = Keyed.insertItems _ _ m.items
  unfold Keyed.insertItems
  rw [hks]
  split_ifs with h
  · rw [List.map_map]
    refine map_congr_left fun kv _ => ?_
    by_cases hkv : kv.1 = importedChunkMetadataKey
    · simp [hkv]
    · simp [hkv, replaceMarker]
  · congr 1
    refine (map_congr_left fun kv hkv => ?_).trans (List.map_id _)
    have hne : kv.1 ≠ importedChunkMetadataKey := fun he =>
      h (List.mem_map.mpr ⟨kv, hkv, he⟩)
    rw [replaceMarker, if_neg hne, id]

/-- The text of a metadata column is read and stamped. -/
theorem stampRaw_metadata (m : Metadata) :
    stampRaw (m.items.map fun kv => (kv.1, .str kv.2)) = some (stamp m) := by
  have his : (m.items.map fun kv => ((kv.1, .str kv.2) : String × Json)).mapM
      (fun kv => if kv.1 = importedChunkMetadataKey then some (kv.1, importedChunkMetadataValue)
        else (asStr kv.2).map fun v => (kv.1, v)) = some (m.items.map replaceMarker) := by
    induction m.items with
    | nil => rfl
    | cons kv items ih =>
      rw [map_cons, mapM_cons, ih]
      by_cases hkv : kv.1 = importedChunkMetadataKey <;> simp [hkv, asStr, replaceMarker]
  have hnd := (m.map replaceMarker replaceMarker_fst).nodup
  have hrd :
      Keyed.ofList (m.items.map replaceMarker) = m.map replaceMarker replaceMarker_fst := by
    ext1
    exact Keyed.items_ofList hnd
  rw [stampRaw, his, map_some, hrd, stamp_map_replaceMarker]

end ArchonSearch.Export
