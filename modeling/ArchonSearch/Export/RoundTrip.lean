import ArchonSearch.Export.Chunk

/-!
# An export is imported again

The document written for a row, whatever the row, decodes to the fields of the row with the marker
in the metadata, or is refused (`decodeFields_exportDoc`). For a row that an ingest has stored the
checks have nothing to refuse, as long as the marker fits, and storing the decoded chunk gives the
row again; an archive with room for the markers and no line over the limit is imported whole
(`round_trip`).

The marker does not fit into metadata that has `META_MAX_FIELDS` fields without it. The chunk is a
legal one, but its document is refused (`refused_without_room`), and with `on_error = fail`
the import of the archive.
-/

namespace ArchonSearch.Export

open Lib Py List Import

variable {φ τ : Type} {codec : Codec φ τ}

/-! ### The document of a row -/

def fieldsOf (r : StoredRow φ) : ChunkFields φ where
  docId := r.docId
  chunkId := r.chunkId
  text := r.text
  sourcePath := r.sourcePath
  indexedAt := some (r.indexedAt.getD "")
  fileType := r.fileType
  language := r.language
  metadata := stamp r.metadata
  acl := r.acl
  customScore := r.customScore
  ingestedBy := normalizeIngestedBy r.ingestedBy
  updatedAt :=
    match r.updatedAt with
    | none | some "" => r.indexedAt.getD ""
    | some s => s
  expiresAt := r.expiresAt
  scopes := r.scopes
  aclSource := r.aclSource
  aclSidecarPath := r.aclSidecarPath
  aclWarning := r.aclWarning.getD []

def HasRoom (m : Metadata) : Prop :=
  importedChunkMetadataKey ∈ m.items.map Prod.fst ∨ m.items.length ≠ metaMaxFields

instance (m : Metadata) : Decidable (HasRoom m) := inferInstanceAs (Decidable (_ ∨ _))

theorem lookup_metadata_eq_none_iff (m : Metadata) (k : String) :
    (m.items.map fun kv => ((kv.1, .str kv.2) : String × Json)).lookup k = none ↔
      k ∉ m.items.map Prod.fst := by
  rw [lookup_eq_none_iff]
  constructor
  · intro h hk
    obtain ⟨kv, hkv, rfl⟩ := mem_map.mp hk
    simpa using h _ (mem_map.mpr ⟨kv, hkv, rfl⟩)
  · intro h p hp
    obtain ⟨kv, hkv, rfl⟩ := mem_map.mp hp
    have hne : k ≠ kv.1 := fun he => h (he ▸ mem_map_of_mem hkv)
    simpa using hne

theorem orMalformed_some_bind {α β : Type} (a : α) (f : α → Except Import.FieldError β) :
    (orMalformed (some a) >>= f) = f a := rfl

/-- **What is decoded of an exported row.** Every column is read as it was written. -/
theorem decodeFields_exportDoc (lawful : codec.Lawful) (r : StoredRow φ) :
    decodeFields codec (exportDoc codec r) =
      if HasRoom r.metadata then
        if validateChunkRecord codec (fieldsOf r) then .ok (fieldsOf r) else .error .malformed
      else .error .noRoom := by
  have hroom : ((r.metadata.items.map fun kv => ((kv.1, .str kv.2) : String × Json)).lookup
      importedChunkMetadataKey = none ∧
      (r.metadata.items.map fun kv => ((kv.1, .str kv.2) : String × Json)).length =
        metaMaxFields) ↔ ¬HasRoom r.metadata := by
    rw [lookup_metadata_eq_none_iff, length_map, HasRoom]
    tauto
  set members := (exportDoc codec r).members with hm
  have hmeta : rawMeta (exportDoc codec r).metadata =
      some (r.metadata.items.map fun kv => (kv.1, .str kv.2)) := rfl
  have hdocId : archivedRequiredStr members "doc_id" = some r.docId :=
    archivedRequiredStr_of_lookup rfl
  have hchunkId : members.lookup "chunk_id" = some (.str r.chunkId) := rfl
  have htx : archivedRequiredStr members "text" = some r.text :=
    archivedRequiredStr_of_lookup rfl
  have hsourcePath : archivedRequiredStr members "source_path" = some r.sourcePath :=
    archivedRequiredStr_of_lookup rfl
  have hindexedAt : archivedRequiredStr members "indexed_at" = some (fieldsOf r).indexedAt :=
    archivedRequiredStr_of_lookup rfl
  have hfileType : archivedOptionalStr members "file_type" = some (some r.fileType) :=
    archivedOptionalStr_of_lookup rfl
  have hlan : archivedOptionalStr members "language" = some (some r.language) :=
    archivedOptionalStr_of_lookup rfl
  have hacl : archivedOptionalStrList members "acl" = some r.acl :=
    archivedOptionalStrList_of_lookup rfl
  have hingestedBy : archivedOptionalStr members "ingested_by" =
      some (some (fieldsOf r).ingestedBy.value) := archivedOptionalStr_of_lookup rfl
  have hupdatedAt : archivedOptionalStr members "updated_at" = some (some (fieldsOf r).updatedAt) :=
    archivedOptionalStr_of_lookup rfl
  have hscs : archivedOptionalStrList members "scopes" = some r.scopes :=
    archivedOptionalStrList_of_lookup rfl
  have haclSource : archivedOptionalStr members "acl_source" = some r.aclSource :=
    archivedOptionalStr_of_lookup rfl
  have haclSidecarPath : archivedOptionalStr members "acl_sidecar_path" = some r.aclSidecarPath :=
    archivedOptionalStr_of_lookup rfl
  have haclWarning : archivedOptionalStrList members "acl_warning" =
      some (some (r.aclWarning.getD [])) := archivedOptionalStrList_of_lookup rfl
  have hexpiresAt : archivedOptionalStr members "expires_at" = some r.expiresAt :=
    archivedOptionalStr_of_lookup rfl
  have hsc : archivedScore codec members = some r.customScore :=
    archivedScore_of_lookup lawful rfl
  simp only [decodeFields, ← hm, hmeta, hdocId, hchunkId, htx, hsourcePath, hindexedAt,
    hfileType, hlan, hacl, hingestedBy, hupdatedAt, hscs, haclSource, haclSidecarPath,
    haclWarning, hexpiresAt, hsc, orMalformed_some_bind, hroom, asStr, stampRaw_metadata,
    Option.getD_some, normalizeIngestedBy_value]
  by_cases h : HasRoom r.metadata
  · simp only [h, not_true, if_true, if_false]
    rfl
  · simp only [h, not_false_eq_true, if_true, if_false]
    rfl

/-- The components are read back from their base64 text. -/
theorem words_exportDoc (r : StoredRow φ) :
    (decoder codec).words (exportDoc codec r) = some r.vector := by
  show (b64decode (b64encode (packWords r.vector))).bind unpackWords = some r.vector
  rw [b64decode_b64encode lt_of_mem_packWords]
  exact unpackWords_packWords r.vector

/-! ### The checks have nothing to refuse -/

/-- A date-time that was normalised is left as it is. -/
theorem normalizeIsoUtc_of_eq_some (lawful : codec.Lawful) {e s : String}
    (h : normalizeIsoUtc codec e = some s) : normalizeIsoUtc codec s = some s := by
  obtain ⟨t, -, rfl⟩ := Option.map_eq_some_iff.mp h
  exact normalizeIsoUtc_strftime lawful t

/-- Metadata within the limits that has room for the marker is within them with it. -/
theorem validateMetadata_stamp {m : Metadata} (h : validateMetadata m = true)
    (hroom : HasRoom m) : validateMetadata (stamp m) = true := by
  obtain ⟨hlen, hall⟩ := (Bool.and_eq_true _ _).mp h
  have hlen' : m.items.length ≤ metaMaxFields := of_decide_eq_true hlen
  refine (Bool.and_eq_true _ _).mpr ⟨decide_eq_true ?_, all_eq_true.mpr fun kv hkv => ?_⟩
  · show (Keyed.insertItems _ _ m.items).length ≤ metaMaxFields
    unfold Keyed.insertItems
    split_ifs with hm
    · rwa [length_map]
    · have hlt := lt_of_le_of_ne hlen' (hroom.resolve_left hm)
      rw [length_append, length_singleton]
      exact hlt
  · rcases Keyed.mem_insert.mp hkv with rfl | ⟨hold, -⟩
    · decide
    · exact all_eq_true.mp hall kv hold

/-- A row that an ingest has stored, with its `indexed_at`. -/
def Stored (codec : Codec φ τ) (r : StoredRow φ) : Prop :=
  ∃ cols c, c.indexedAt ≠ none ∧ ingestChunk codec cols c = some r

def marked (r : StoredRow φ) : StoredRow φ := { r with metadata := stamp r.metadata }

def chunkOf (r : StoredRow φ) : ChunkRecord φ := { fieldsOf r with vector := r.vector }

variable {r : StoredRow φ}

theorem ingestChunk_eq_some_iff {cols : Columns} {c : ChunkRecord φ} :
    ingestChunk codec cols c = some r ↔
      (validateChunkRecord codec c.toChunkFields = true ∧ c.vector.any isNan = false) ∧
        rowOf codec cols c = r := by
  simp [ingestChunk]

theorem validateChunkRecord_fieldsOf (lawful : codec.Lawful)
    (h : Stored codec r) (hroom : HasRoom r.metadata) :
    validateChunkRecord codec (fieldsOf r) = true := by
  obtain ⟨cols, c, -, hsto⟩ := h
  obtain ⟨⟨hval, -⟩, rfl⟩ := ingestChunk_eq_some_iff.mp hsto
  simp only [validateChunkRecord, Bool.and_eq_true] at hval ⊢
  obtain ⟨⟨hid, hmeta⟩, hexp⟩ := hval
  refine ⟨⟨hid, validateMetadata_stamp hmeta hroom⟩, ?_⟩
  show Option.all _ (if cols.hasTtl then c.expiresAt.bind (normalizeIsoUtc codec) else none) = true
  split_ifs with httl
  · cases he : c.expiresAt.bind (normalizeIsoUtc codec) with
    | none => rfl
    | some s =>
      obtain ⟨e, -, hs⟩ := Option.bind_eq_some_iff.mp he
      simp [normalizeIsoUtc_of_eq_some lawful hs]
  · rfl

/-- An expiry that is stored is normalised already. -/
theorem expiresAt_bind (lawful : codec.Lawful) (h : Stored codec r) :
    r.expiresAt.bind (normalizeIsoUtc codec) = r.expiresAt := by
  obtain ⟨cols, c, -, hsto⟩ := h
  obtain ⟨-, rfl⟩ := ingestChunk_eq_some_iff.mp hsto
  show Option.bind (if cols.hasTtl then c.expiresAt.bind (normalizeIsoUtc codec) else none) _ =
    if cols.hasTtl then c.expiresAt.bind (normalizeIsoUtc codec) else none
  split_ifs with httl
  · cases he : c.expiresAt.bind (normalizeIsoUtc codec) with
    | none => rfl
    | some s =>
      obtain ⟨e, -, hs⟩ := Option.bind_eq_some_iff.mp he
      exact normalizeIsoUtc_of_eq_some lawful hs
  · rfl

/-- The columns that the readers of the store normalise, as an ingest stores them. -/
theorem stored_columns (h : Stored codec r) :
    some (r.indexedAt.getD "") = r.indexedAt ∧
    (normalizeIngestedBy r.ingestedBy).value = r.ingestedBy ∧
    (if (fieldsOf r).updatedAt = "" then r.indexedAt else some (fieldsOf r).updatedAt) =
      r.updatedAt ∧
    (if r.aclWarning.getD [] = [] then none else some (r.aclWarning.getD [])) = r.aclWarning := by
  obtain ⟨cols, c, hind, hsto⟩ := h
  obtain ⟨-, rfl⟩ := ingestChunk_eq_some_iff.mp hsto
  obtain ⟨i, hi⟩ := Option.ne_none_iff_exists'.mp hind
  refine ⟨?_, ?_, ?_, ?_⟩
  · simp [rowOf, hi]
  · simp [rowOf]
  · by_cases hu : c.updatedAt = ""
    · by_cases hi' : i = "" <;> simp [fieldsOf, rowOf, hu, hi, hi']
    · simp [fieldsOf, rowOf, hu]
  · simp only [rowOf]
    split_ifs <;> simp_all

theorem rowOf_chunkOf (lawful : codec.Lawful) (h : Stored codec r) :
    rowOf codec Columns.all (chunkOf r) = marked r := by
  obtain ⟨hind, hing, hupd, hwar⟩ := stored_columns h
  have hexp := expiresAt_bind lawful h
  have hflds : ∀ x : Option String, x = r.indexedAt →
      (if (fieldsOf r).updatedAt = "" then x else some (fieldsOf r).updatedAt) = r.updatedAt := by
    rintro x rfl
    exact hupd
  simp only [rowOf, marked, chunkOf, Columns.all, if_true, StoredRow.mk.injEq, true_and]
  exact ⟨rfl, rfl, rfl, rfl, hind, rfl, rfl, rfl, rfl, hing, hflds _ hind,
    rfl, hexp, rfl, rfl, rfl, hwar⟩

theorem Stored.any_isNan (h : Stored codec r) :
    r.vector.any isNan = false := by
  obtain ⟨cols, c, -, hsto⟩ := h
  obtain ⟨⟨-, hnan⟩, rfl⟩ := ingestChunk_eq_some_iff.mp hsto
  exact hnan

/-- **The document of a stored row decodes, and the chunk is stored as the row was.** -/
theorem decodeChunk_exportDoc (lawful : codec.Lawful) (h : Stored codec r)
    (hvec : r.vector ≠ []) (hroom : HasRoom r.metadata) (n : ℕ) {embeddingDim : Option ℕ}
    (hdim : embeddingDim = none ∨ embeddingDim = some r.vector.length) :
    Import.decodeChunk (decoder codec) (exportDoc codec r) n embeddingDim =
        .ok ⟨r.chunkId, r.indexedAt.getD "", r.vector, fieldsOf r⟩ ∧
      ingestChunk codec Columns.all (chunkOf r) = some (marked r) := by
  have hval := validateChunkRecord_fieldsOf lawful h hroom
  have hnan := h.any_isNan
  constructor
  · have hws : Import.decodeVector (decoder codec) (exportDoc codec r) n embeddingDim =
        .ok r.vector := by
      have hdim' : ¬(embeddingDim ≠ none ∧ embeddingDim ≠ some r.vector.length) := by tauto
      simp only [decodeVector, words_exportDoc, if_neg hvec, if_neg hdim', hnan]
      rfl
    have hflds : (decoder codec).fields (exportDoc codec r) =
        .ok (r.chunkId, r.indexedAt.getD "", fieldsOf r) := by
      show (decodeFields codec (exportDoc codec r)).map _ = _
      rw [decodeFields_exportDoc lawful, if_pos hroom, if_pos hval]
      rfl
    simp only [Import.decodeChunk, hws, hflds]
  · exact ingestChunk_eq_some_iff.mpr ⟨⟨hval, hnan⟩, rowOf_chunkOf lawful h⟩

/-! ### A whole archive -/

/-- `IMPORT_DOC_LINE_MAX_BYTES`. -/
def importDocLineMaxBytes : ℕ := 8 * 1024 * 1024

variable (codec)

/-- A line that `_export_task` writes, as the reader of an archive finds it. -/
def exportLine (lineBytes : Doc → ℕ) (r : StoredRow φ) : Import.Line Doc :=
  let d := exportDoc codec r
  .text (if lineBytes d ≤ importDocLineMaxBytes then .ok d else .error .tooLarge)

/-- The loop of an import over a running `iter_docs`, with `on_error = fail`. -/
def decodeDocs (embeddingDim : Option ℕ) :
    Import.Docs Doc → Except Import.Rejection (List (ChunkRecord φ))
  | .done _ => .ok []
  | .raised r => .error r
  | .yielded d lineNumber _ rest => do
    let chunk ← decodeChunk codec d lineNumber embeddingDim
    let chunks ← decodeDocs embeddingDim rest
    return chunk :: chunks

/-- The chunks that an import with `on_error = fail` stores; the first valid document sets
the dimension. -/
def importDocs (lines : List (Import.Line Doc)) :
    Except Import.Rejection (List (ChunkRecord φ)) := do
  match ← firstValidChunk (decoder codec) .fail (iterDocs lines 0 .fail) with
  | none => return []
  | some first => decodeDocs codec (some first.vector.length) (iterDocs lines 0 .fail)

variable {codec}

/-- A stored row whose metadata has room for the marker. -/
structure Exportable (codec : Codec φ τ) (dim : ℕ) (r : StoredRow φ) : Prop where
  stored : Stored codec r
  vector : r.vector.length = dim
  room : HasRoom r.metadata

variable {dim : ℕ}

theorem Exportable.decode (lawful : codec.Lawful) (hdim : 0 < dim)
    (h : Exportable codec dim r) (n : ℕ) :
    decodeChunk codec (exportDoc codec r) n (some dim) = .ok (chunkOf r) := by
  have hvec : r.vector ≠ [] := ne_nil_of_length_pos (h.vector ▸ hdim)
  have hdec := (decodeChunk_exportDoc lawful h.stored hvec h.room n
    (Or.inr (congrArg some h.vector.symm))).1
  rw [decodeChunk, hdec]
  rfl

variable {rows : List (StoredRow φ)} {lineBytes : Doc → ℕ}

theorem decodeDocs_exportLine (lawful : codec.Lawful)
    (hdim : 0 < dim) (h : ∀ r ∈ rows, Exportable codec dim r)
    (hbs : ∀ r ∈ rows, lineBytes (exportDoc codec r) ≤ importDocLineMaxBytes)
    (lineno : ℕ) :
    decodeDocs codec (some dim)
        (iterLines .fail lineno 0 0 (rows.map (exportLine codec lineBytes))) =
      .ok (rows.map chunkOf) := by
  induction rows generalizing lineno with
  | nil => rfl
  | cons r rows ih =>
    have hline : exportLine codec lineBytes r = .text (.ok (exportDoc codec r)) := by
      rw [exportLine, if_pos (hbs r mem_cons_self)]
    have hrs := ih (fun r' hr' => h r' (mem_cons_of_mem _ hr'))
      (fun r' hr' => hbs r' (mem_cons_of_mem _ hr')) (lineno + 1)
    rw [map_cons, hline]
    simp only [iterLines, decodeDocs, hrs, (h r mem_cons_self).decode lawful hdim (lineno + 1)]
    rfl

/-- The decoded chunks are stored as the rows they come from. -/
theorem mapM_ingestChunk_chunkOf (lawful : codec.Lawful)
    (h : ∀ r ∈ rows, Exportable codec dim r) :
    (rows.map chunkOf).mapM (ingestChunk codec Columns.all) = some (rows.map marked) := by
  induction rows with
  | nil => rfl
  | cons r rows ih =>
    have hr := h r mem_cons_self
    have hrw : ingestChunk codec Columns.all (chunkOf r) = some (marked r) :=
      ingestChunk_eq_some_iff.mpr
        ⟨⟨validateChunkRecord_fieldsOf lawful hr.stored hr.room, hr.stored.any_isNan⟩,
          rowOf_chunkOf lawful hr.stored⟩
    rw [map_cons, mapM_cons, hrw, ih fun r' hr' => h r' (mem_cons_of_mem _ hr')]
    rfl

/-- The first document sets the dimension to that of the table. -/
theorem importDocs_exportLine (lawful : codec.Lawful)
    (hdim : 0 < dim) (h : ∀ r ∈ rows, Exportable codec dim r)
    (hbs : ∀ r ∈ rows, lineBytes (exportDoc codec r) ≤ importDocLineMaxBytes) :
    importDocs codec (rows.map (exportLine codec lineBytes)) = .ok (rows.map chunkOf) := by
  have hdocs := decodeDocs_exportLine lawful hdim h hbs 0
  cases rows with
  | nil => rfl
  | cons r rows =>
    have hr := h r mem_cons_self
    have hline : exportLine codec lineBytes r = .text (.ok (exportDoc codec r)) := by
      rw [exportLine, if_pos (hbs r mem_cons_self)]
    have hvec : r.vector ≠ [] := ne_nil_of_length_pos (hr.vector ▸ hdim)
    have hfst : firstValidChunk (decoder codec) .fail
        (Import.iterDocs ((r :: rows).map (exportLine codec lineBytes)) 0 .fail) =
          .ok (some ⟨r.chunkId, r.indexedAt.getD "", r.vector, fieldsOf r⟩) := by
      rw [map_cons, hline]
      simp only [Import.iterDocs, Import.iterLines, Import.firstValidChunk,
        (decodeChunk_exportDoc lawful hr.stored hvec hr.room (0 + 1) (Or.inl rfl)).1]
    rw [importDocs, hfst]
    show decodeDocs codec (some r.vector.length) _ = _
    rw [hr.vector]
    exact hdocs

/-- **An export is imported again without a loss.** The rows are of one table, were stored
by an ingest and have room for the marker. Each document decodes, to a chunk that is
stored as the row it was written for, with the marker; and if no line is over the limit,
all of them are imported, with `on_error = fail` and in their order. -/
theorem round_trip (lawful : codec.Lawful) (lineBytes : Doc → ℕ) {dim : ℕ} (hdim : 0 < dim)
    {rows : List (StoredRow φ)} (h : ∀ r ∈ rows, Exportable codec dim r) :
    (∀ r ∈ rows, ∀ n, ∃ c, decodeChunk codec (exportDoc codec r) n (some dim) = .ok c ∧
      ingestChunk codec Columns.all c = some (marked r)) ∧
    ((∀ r ∈ rows, lineBytes (exportDoc codec r) ≤ importDocLineMaxBytes) →
      ∃ cs, importDocs codec (rows.map (exportLine codec lineBytes)) = .ok cs ∧
        cs.mapM (ingestChunk codec Columns.all) = some (rows.map marked)) := by
  constructor
  · intro r hr n
    have hvec : r.vector ≠ [] := ne_nil_of_length_pos ((h r hr).vector ▸ hdim)
    exact ⟨chunkOf r, (h r hr).decode lawful hdim n,
      (decodeChunk_exportDoc lawful (h r hr).stored hvec (h r hr).room n (Or.inl rfl)).2⟩
  · intro hbs
    exact ⟨rows.map chunkOf, importDocs_exportLine lawful hdim h hbs,
      mapM_ingestChunk_chunkOf lawful h⟩

/-- The document of a row without room for the marker is refused, and for that reason;
with `on_error = fail` no archive that starts with it is imported. -/
theorem refused_without_room (lawful : codec.Lawful) (h : Stored codec r)
    (hvec : r.vector ≠ []) (hroom : ¬HasRoom r.metadata) :
    (∀ n, decodeChunk codec (exportDoc codec r) n none = .error (.noRoom n)) ∧
    ∀ rest, importDocs codec (.text (.ok (exportDoc codec r)) :: rest) = .error (.noRoom 1) := by
  have hws : ∀ n, Import.decodeVector (decoder codec) (exportDoc codec r) n none =
      .ok r.vector := by
    intro n
    simp only [decodeVector, words_exportDoc, if_neg hvec, h.any_isNan]
    rfl
  have hflds : (decoder codec).fields (exportDoc codec r) = .error .noRoom := by
    show (decodeFields codec (exportDoc codec r)).map _ = _
    rw [decodeFields_exportDoc lawful, if_neg hroom]
    rfl
  have hdec : ∀ n, Import.decodeChunk (decoder codec) (exportDoc codec r) n none =
      .error (.noRoom n) := by
    intro n
    simp only [Import.decodeChunk, hws, hflds]
  constructor
  · intro n
    rw [decodeChunk, hdec]
    rfl
  · intro rest
    simp only [importDocs, iterDocs, iterLines, firstValidChunk, hdec]
    rfl

/-! ### Two rows, and one whose metadata is full -/

def sampleChunk (chunkId : String) (metadata : Metadata) : ChunkRecord ℚ where
  docId := some "0"
  chunkId := chunkId
  text := some "text"
  sourcePath := some "/notes.md"
  indexedAt := some "2026-01-01T00:00:00.000000Z"
  fileType := "md"
  language := "en"
  metadata := metadata
  acl := some []
  customScore := some (1 / 2)
  ingestedBy := .http
  updatedAt := ""
  expiresAt := some "2027-01-01T00:00:00.000000+00:00"
  scopes := some ["team"]
  aclSource := some "default"
  aclSidecarPath := none
  aclWarning := []
  vector := [0x3f800000, 0xff800000]

def sampleId (digit : Char) : String :=
  String.ofList (List.replicate 64 'a' ++ '-' :: List.replicate 5 '0' ++ [digit])

def sampleMetadata : Metadata := ⟨[("author", "me")], by decide⟩

def fullMetadata : Metadata :=
  ⟨(List.range metaMaxFields).map fun i => (String.ofList (List.replicate i 'k'), ""), by
    decide +kernel⟩

def sampleRow (chunkId : String) (metadata : Metadata) : StoredRow ℚ :=
  rowOf sampleCodec Columns.all (sampleChunk chunkId metadata)

theorem sampleRow_stored {chunkId : String} {metadata : Metadata}
    (h : validateChunkRecord sampleCodec (sampleChunk chunkId metadata).toChunkFields = true) :
    Stored sampleCodec (sampleRow chunkId metadata) :=
  ⟨Columns.all, sampleChunk chunkId metadata, by simp [sampleChunk],
    ingestChunk_eq_some_iff.mpr ⟨⟨h, rfl⟩, rfl⟩⟩

/-- The rows of two chunks, one of them stored already by an import. -/
def sampleRows : List (StoredRow ℚ) :=
  [sampleRow (sampleId '0') sampleMetadata, sampleRow (sampleId '1') (stamp sampleMetadata)]

/-- The two rows come back, in lines of a thousand bytes. -/
theorem round_trip_sampleRows :
    (∀ r ∈ sampleRows, Exportable sampleCodec 2 r) ∧
    ∃ cs, importDocs sampleCodec (sampleRows.map (exportLine sampleCodec fun _ => 1000)) = .ok cs ∧
      cs.mapM (ingestChunk sampleCodec Columns.all) = some (sampleRows.map marked) := by
  have h : ∀ r ∈ sampleRows, Exportable sampleCodec 2 r := by
    intro r hr
    rcases mem_pair.mp hr with rfl | rfl
    · exact ⟨sampleRow_stored (by decide +kernel), rfl, Or.inr (by decide)⟩
    · exact ⟨sampleRow_stored (by decide +kernel), rfl, Or.inr (by decide)⟩
  exact ⟨h, (round_trip sampleCodec_lawful (fun _ => 1000) (by decide) h).2 fun _ _ => by decide⟩

/-- A chunk with full metadata is stored; its document is refused, and the import of an
archive that has it. -/
theorem full_metadata_refused :
    let r := sampleRow (sampleId '0') fullMetadata
    Stored sampleCodec r ∧ r.vector.length = 2 ∧
    decodeChunk sampleCodec (exportDoc sampleCodec r) 1 none = .error (.noRoom 1) ∧
    importDocs sampleCodec [.text (.ok (exportDoc sampleCodec r))] = .error (.noRoom 1) := by
  intro r
  have hsto : Stored sampleCodec r := sampleRow_stored (by decide +kernel)
  have href := refused_without_room sampleCodec_lawful hsto
    (by simp [r, sampleRow, rowOf, sampleChunk]) (by decide +kernel)
  exact ⟨hsto, rfl, href.1 1, href.2 []⟩

end ArchonSearch.Export
