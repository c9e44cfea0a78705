import ArchonSearch.Ingest.Text

/-!
# A document is ingested again

With no other writer of the collection, an ingest that ends with `ok` has either done nothing at
all, because the text has no piece, or has deleted the rows of the document and added all its
batches (`run_ok`). The first of the two is an early return that comes before the deletion: a
document whose text has become blank keeps the rows, and the ACL, of its earlier version
(`blank_text_keeps_rows`).

When the rows of a document are those of its new version is said exactly by `replaced_iff`: the
text has a piece or the document has no row yet, and a table without the columns for an expiry and
for scopes is not given any.
-/

namespace ArchonSearch.Ingest

open Lib Py Export Acl List Option

variable {φ τ θ : Type} {codec : Codec φ τ} {services : Services θ τ} {req : Request}

/-! ### A run alone -/

variable {cols : Columns} {docId : String}

def stepAlone (codec : Codec φ τ) (cols : Columns) (docId : String)
    (s : Task φ × List (StoredRow φ)) (reply : Reply) : Option (Task φ × List (StoredRow φ)) :=
  s.1.step codec cols docId s.2 reply

variable {replies : List Reply} {rows : List (StoredRow φ)}

theorem run_ended {o : Outcome}
    {s : Task φ × List (StoredRow φ)}
    (h : run (stepAlone codec cols docId) (.ended o, rows) replies = some s) :
    s = (.ended o, rows) := by
  cases replies with
  | nil => exact (some.inj h).symm
  | cons reply replies => cases h

/-- The first call of a run that ends with `ok` does not end it otherwise. -/
theorem ne_ended_of_run_ok {t : Task φ} {rows' : List (StoredRow φ)}
    (h : run (stepAlone codec cols docId) (t, rows) replies = some (.ended .ok, rows')) :
    ¬∃ o, o ≠ .ok ∧ t = .ended o := by
  rintro ⟨o, ho, rfl⟩
  exact ho (Task.ended.inj (congrArg Prod.fst (run_ended h))).symm

variable {batches : List (List (ChunkRecord φ))}

/-- What an ingest that has batches left and ends with `ok` adds. -/
theorem run_ofBatches_ok
    {rows' : List (StoredRow φ)}
    (h : run (stepAlone codec cols docId) (.ofBatches batches, rows) replies =
      some (.ended .ok, rows')) :
    ∃ added, batches.flatten.mapM (ingestChunk codec cols) = some added ∧
      rows' = rows ++ added := by
  induction batches generalizing replies rows with
  | nil =>
    cases replies with
    | nil => cases h
    | cons reply replies =>
      obtain ⟨⟨t, rows₁⟩, hs, hr⟩ := (run_cons_eq_some _).mp h
      rcases Task.step_cases hs with hfa | ⟨_, hne, -⟩ | ⟨_, _, _, hne, -⟩ | ⟨-, rfl, rfl⟩
      · exact absurd hfa (ne_ended_of_run_ok hr)
      · cases hne
      · cases hne
      · have hrw : rows' = rows₁ := congrArg Prod.snd (run_ended hr)
        exact ⟨[], rfl, by rw [hrw, append_nil]⟩
  | cons batch batches ih =>
    cases replies with
    | nil => cases h
    | cons reply replies =>
      obtain ⟨⟨t, rows₁⟩, hs, hr⟩ := (run_cons_eq_some _).mp h
      rcases Task.step_cases hs with hfa | ⟨_, hne, -⟩ | ⟨_, _, added, heq, hadd, rfl, rfl⟩ |
        ⟨hne, -⟩
      · exact absurd hfa (ne_ended_of_run_ok hr)
      · cases hne
      · cases heq
        obtain ⟨added', hadd', rfl⟩ := ih hr
        refine ⟨added ++ added', ?_, by rw [append_assoc]⟩
        rw [flatten_cons, mapM_append, hadd, hadd']
        rfl
      · cases hne

/-- **What an ingest that ends with `ok` has done.** It has done nothing, and the text has
no piece; or it has replaced the rows of the document by those of its records. -/
theorem run_ok {rows' : List (StoredRow φ)}
    (h : run (stepAlone codec cols req.docId) (prepare codec services req, rows) replies =
      some (.ended .ok, rows')) :
    (pieces services req = [] ∧ rows' = rows) ∨
    (pieces services req ≠ [] ∧ ∃ expiresAt, resolvedExpiry codec services req = some expiresAt ∧
      rows' = (rows.filter fun r => !ofDoc req.docId r) ++
        (batchesOf services req expiresAt).flatten.map (rowOf codec cols)) := by
  unfold prepare at h
  split_ifs at h with hpcs
  · exact Or.inl ⟨hpcs, congrArg Prod.snd (run_ended h)⟩
  refine Or.inr ⟨hpcs, ?_⟩
  cases hexp : resolvedExpiry codec services req with
  | none =>
    rw [hexp] at h
    cases congrArg Prod.fst (run_ended h)
  | some expiresAt =>
    cases hext : services.extract (pieces services req) with
    | fatal =>
      rw [hexp, hext] at h
      cases congrArg Prod.fst (run_ended h)
    | proceeds =>
      simp only [hexp, hext] at h
      cases replies with
      | nil => cases h
      | cons reply replies =>
        obtain ⟨⟨t, rows₁⟩, hs, hr⟩ := (run_cons_eq_some _).mp h
        rcases Task.step_cases hs with hfa | ⟨batches, heq, rfl, rfl⟩ | ⟨_, _, _, hne, -⟩ | ⟨hne, -⟩
        · exact absurd hfa (ne_ended_of_run_ok hr)
        · obtain ⟨added, hadd, rfl⟩ := run_ofBatches_ok hr
          cases heq
          exact ⟨expiresAt, rfl, by rw [mapM_ingestChunk_eq_some hadd]⟩
        · cases hne
        · cases hne

theorem all_validate_of_mapM {batch : List (ChunkRecord φ)}
    (h : (batch.mapM (ingestChunk codec cols)).isSome = true) :
    (batch.all fun record => validateChunkRecord codec record.toChunkFields) = true := by
  obtain ⟨added, hadd⟩ := isSome_iff_exists.mp h
  induction batch generalizing added with
  | nil => rfl
  | cons record batch ih =>
    simp only [mapM_cons, bind_eq_bind, bind_eq_some_iff] at hadd
    obtain ⟨row, hr, added', hadd', -⟩ := hadd
    have hval : validateChunkRecord codec record.toChunkFields = true := by
      unfold ingestChunk at hr
      split_ifs at hr with hboth
      exact (Bool.and_eq_true _ _ ▸ hboth).1
    rw [all_cons, hval, ih (by rw [hadd']; rfl) added' hadd']
    rfl

/-- An ingest whose batches are accepted adds them all, when every call returns. -/
theorem run_ofBatches_returns (rows : List (StoredRow φ))
    (h : ∀ batch ∈ batches, (batch.mapM (ingestChunk codec cols)).isSome = true) :
    run (stepAlone codec cols docId) (.ofBatches batches, rows)
        (List.replicate (batches.length + 1) .returns) =
      some (.ended .ok, rows ++ batches.flatten.map (rowOf codec cols)) := by
  induction batches generalizing rows with
  | nil => simp [run, stepAlone, Task.ofBatches, Task.step]
  | cons batch batches ih =>
    have hbat := h batch mem_cons_self
    obtain ⟨added, hadd⟩ := isSome_iff_exists.mp hbat
    have hrw := mapM_ingestChunk_eq_some hadd
    have hs : stepAlone codec cols docId (.ofBatches (batch :: batches), rows) .returns =
        some (.ofBatches batches, rows ++ added) := by
      simp [stepAlone, Task.ofBatches, Task.step, all_validate_of_mapM hbat, hadd]
    rw [length_cons, replicate_succ, run, hs, bind_some,
      ih _ fun batch' hm => h batch' (mem_cons_of_mem _ hm), hrw, flatten_cons,
      map_append, append_assoc]

variable {expiresAt : Option String}

/-- **An ingest does end with `ok`**: when the expiry resolves, no extraction is fatal, the
records are accepted and every call returns. -/
theorem run_returns (hpcs : pieces services req ≠ [])
    (hexp : resolvedExpiry codec services req = some expiresAt)
    (hext : services.extract (pieces services req) = .proceeds)
    (hdocId : isValidDocId req.docId = true)
    (hbat : ∀ batch ∈ batchesOf services req expiresAt,
      (batch.mapM (ingestChunk codec cols)).isSome = true) (rows : List (StoredRow φ)) :
    run (stepAlone codec cols req.docId) (prepare codec services req, rows)
        (List.replicate ((batchesOf services req expiresAt :
          List (List (ChunkRecord φ))).length + 2) .returns) =
      some (.ended .ok, (rows.filter fun r => !ofDoc req.docId r) ++
        (batchesOf services req expiresAt).flatten.map (rowOf codec cols)) := by
  have hprep : prepare codec services req = .deleting (batchesOf services req expiresAt) := by
    simp only [prepare, if_neg hpcs, hexp, hext]
  have hs : stepAlone codec cols req.docId (prepare codec services req, rows) .returns =
      some (.ofBatches (batchesOf services req expiresAt),
        rows.filter fun r => !ofDoc req.docId r) := by
    simp [stepAlone, hprep, Task.step, hdocId]
  rw [replicate_succ, run, hs, bind_some]
  exact run_ofBatches_returns _ hbat

/-! ### When a document is replaced -/

/-- The rows of the document are the chunks of the new text, and no other row has
changed. -/
structure Replaced (codec : Codec φ τ) (services : Services θ τ) (req : Request)
    (rows rows' : List (StoredRow φ)) : Prop where
  chunks : (rows'.filter (ofDoc req.docId)).map (fun r => (r.chunkId, r.text)) =
    (pieces services req).mapIdx fun i piece => (chunkIdAt req.docId i, some piece.text)
  nodup : ((rows'.filter (ofDoc req.docId)).map StoredRow.chunkId).Nodup
  resolved : ∀ r ∈ rows', ofDoc req.docId r = true →
    r.acl = (resolvedAcl services req).acl ∧ r.scopes = resolvedScopes req ∧
      some r.expiresAt = resolvedExpiry codec services req
  others : (rows'.filter fun r => !ofDoc req.docId r) = rows.filter fun r => !ofDoc req.docId r

/-- A row has room for what the request resolves to, and an old row does not survive a
text without pieces. -/
def Replaceable (codec : Codec φ τ) (services : Services θ τ) (req : Request) (cols : Columns)
    (rows : List (StoredRow φ)) : Prop :=
  if pieces services req = [] then ∀ r ∈ rows, ofDoc req.docId r = false
  else cols.hasTtl = true ∨
    (resolvedExpiry codec services req = some none ∧ resolvedScopes req = none)

theorem expiry_bind_normalizeIsoUtc (lawful : codec.Lawful)
    (h : resolvedExpiry codec services req = some expiresAt) :
    expiresAt.bind (normalizeIsoUtc codec) = expiresAt := by
  obtain ⟨ttl, -, httl⟩ := bind_eq_some_iff.mp h
  cases ttl with
  | none =>
    cases httl
    rfl
  | some ttl =>
    obtain ⟨t, -, rfl⟩ := map_eq_some_iff.mp httl
    exact normalizeIsoUtc_strftime lawful t

/-- The records of a request are those of its pieces, but for their vectors. -/
theorem fields_of_mem_batchesOf {c : ChunkRecord φ}
    (h : c ∈ (batchesOf services req expiresAt).flatten) :
    ∃ i piece, (recordOf services req expiresAt i piece : ChunkRecord φ).toChunkFields =
      c.toChunkFields := by
  have hflds : c.toChunkFields ∈ (pieces services req).mapIdx fun i piece =>
      (recordOf services req expiresAt i piece : ChunkRecord φ).toChunkFields := by
    rw [← map_toChunkFields_batchesOf]
    exact List.mem_map_of_mem h
  obtain ⟨i, hi, hpiece⟩ := mem_mapIdx.mp hflds
  exact ⟨i, _, hpiece⟩

variable {r : StoredRow φ}

/-- The rows of the new version are rows of the document. -/
theorem docId_of_mem_batchesOf
    (h : r ∈ (batchesOf services req expiresAt).flatten.map (rowOf codec cols)) :
    r.docId = some req.docId := by
  obtain ⟨c, hc, rfl⟩ := List.mem_map.mp h
  obtain ⟨i, piece, hpiece⟩ := fields_of_mem_batchesOf hc
  simp only [rowOf, ← hpiece, recordOf]

theorem row_of_mem_batchesOf (lawful : codec.Lawful)
    (hexp : resolvedExpiry codec services req = some expiresAt)
    (h : r ∈ (batchesOf services req expiresAt).flatten.map (rowOf codec cols)) :
    r.acl = (resolvedAcl services req).acl ∧
      r.scopes = (if cols.hasTtl then resolvedScopes req else none) ∧
      r.expiresAt = if cols.hasTtl then expiresAt else none := by
  obtain ⟨c, hc, rfl⟩ := List.mem_map.mp h
  obtain ⟨i, piece, hpiece⟩ := fields_of_mem_batchesOf hc
  have hbind := expiry_bind_normalizeIsoUtc lawful hexp
  simp [rowOf, ← hpiece, recordOf, hbind]

/-- The ids and texts of the rows of the new version. -/
theorem map_rowOf_batchesOf (expiresAt : Option String) :
    ((batchesOf services req expiresAt).flatten.map (rowOf codec cols)).map
        (fun r => (r.chunkId, r.text)) =
      (pieces services req).mapIdx fun i piece => (chunkIdAt req.docId i, some piece.text) := by
  calc ((batchesOf services req expiresAt).flatten.map (rowOf codec cols)).map
          (fun r => (r.chunkId, r.text))
      = ((batchesOf services req expiresAt).flatten.map ChunkRecord.toChunkFields).map
          (fun c : ChunkFields φ => (c.chunkId, c.text)) := by
        rw [List.map_map, List.map_map]
        rfl
    _ = _ := by
        rw [map_toChunkFields_batchesOf]
        refine ext_getElem (by simp) fun i _ _ => ?_
        simp [recordOf]

theorem nodup_mapIdx_chunkIdAt {α : Type*} (docId : String) (l : List α) :
    (l.mapIdx fun i _ => chunkIdAt docId i).Nodup := by
  have hran : (l.mapIdx fun i _ => chunkIdAt docId i) =
      (List.range l.length).map (chunkIdAt docId) :=
    ext_getElem (by simp) fun i _ _ => by simp
  rw [hran]
  exact nodup_range.map (chunkIdAt_injective docId)

/-- The ids of the rows of the new version are distinct. -/
theorem nodup_chunkId_batchesOf (expiresAt : Option String) :
    (((batchesOf services req expiresAt).flatten.map (rowOf codec cols)).map
      StoredRow.chunkId).Nodup := by
  have hids : ((batchesOf services req expiresAt).flatten.map (rowOf codec cols)).map
      StoredRow.chunkId = (((batchesOf services req expiresAt).flatten.map (rowOf codec cols)).map
        fun r => (r.chunkId, r.text)).map Prod.fst := by
    simp only [List.map_map]
    rfl
  have hpcs : ((pieces services req).mapIdx fun i piece =>
      (chunkIdAt req.docId i, some piece.text)).map Prod.fst =
        (pieces services req).mapIdx fun i _ => chunkIdAt req.docId i :=
    ext_getElem (by simp) fun i _ _ => by simp
  rw [hids, map_rowOf_batchesOf, hpcs]
  exact nodup_mapIdx_chunkIdAt req.docId _

/-- The rows of a document after it was deleted and new rows of it were added. -/
theorem filter_ofDoc_append (rows : List (StoredRow φ)) {added : List (StoredRow φ)}
    (h : ∀ r ∈ added, r.docId = some docId) :
    ((rows.filter fun r => !ofDoc docId r) ++ added).filter (ofDoc docId) = added ∧
    (((rows.filter fun r => !ofDoc docId r) ++ added).filter fun r => !ofDoc docId r) =
      rows.filter fun r => !ofDoc docId r := by
  have hadd : ∀ r ∈ added, ofDoc docId r = true := fun r hr => by simp [ofDoc, h r hr]
  rw [filter_append, filter_append, List.filter_filter, List.filter_filter]
  constructor
  · rw [filter_eq_self.mpr hadd]
    simp
  · have hn : (added.filter fun r => !ofDoc docId r) = [] :=
      filter_eq_nil_iff.mpr fun r hr => by simp [hadd r hr]
    simp [hn]

/-- The rows of the new version replace the old ones, unless the table drops what they
should carry. -/
theorem replaced_added_iff (lawful : codec.Lawful)
    (hexpi : resolvedExpiry codec services req = some expiresAt)
    (hpcs : pieces services req ≠ []) (rows : List (StoredRow φ)) :
    Replaced codec services req rows ((rows.filter fun r => !ofDoc req.docId r) ++
        (batchesOf services req expiresAt).flatten.map (rowOf codec cols)) ↔
      (cols.hasTtl = true ∨
        (resolvedExpiry codec services req = some none ∧ resolvedScopes req = none)) := by
  set added := (batchesOf services req expiresAt).flatten.map (rowOf codec cols) with hadd
  have hdocId : ∀ r ∈ added, r.docId = some req.docId := fun r => docId_of_mem_batchesOf
  have hchs : added.map (fun r => (r.chunkId, r.text)) =
      (pieces services req).mapIdx fun i piece => (chunkIdAt req.docId i, some piece.text) :=
    map_rowOf_batchesOf expiresAt
  obtain ⟨hof, hoth⟩ := filter_ofDoc_append rows hdocId
  constructor
  · intro h
    obtain ⟨r, hr⟩ : ∃ r, r ∈ added := by
      refine exists_mem_of_ne_nil _ fun hnil => hpcs ?_
      rw [hnil] at hchs
      exact mapIdx_eq_nil_iff.mp hchs.symm
    obtain ⟨-, hscs, hexp⟩ := row_of_mem_batchesOf lawful hexpi hr
    obtain ⟨-, hscs', hexp'⟩ :=
      h.resolved r (mem_append_right _ hr) (by simp [ofDoc, hdocId r hr])
    cases httl : cols.hasTtl with
    | true => exact Or.inl rfl
    | false =>
      rw [httl] at hscs hexp
      exact Or.inr ⟨by rw [← hexp', hexp]; rfl, hscs'.symm.trans hscs⟩
  · intro h
    refine ⟨by rw [hof, hchs], ?_, fun r hm hd => ?_, hoth⟩
    · rw [hof]
      exact nodup_chunkId_batchesOf expiresAt
    have hr : r ∈ added := by
      rw [← hof]
      exact mem_filter.mpr ⟨hm, hd⟩
    obtain ⟨hacl, hscs, hexp⟩ := row_of_mem_batchesOf lawful hexpi hr
    rw [hexpi] at h ⊢
    rcases h with httl | ⟨hn, hscs'⟩
    · rw [httl] at hscs hexp
      exact ⟨hacl, hscs, congrArg some hexp⟩
    · cases hn
      refine ⟨hacl, hscs.trans (by simp [hscs']), congrArg some (hexp.trans (by simp))⟩

/-- **An ingest that ends with `ok` replaces the document exactly when** its text has a
piece or the document had no row, and the table has the columns for the expiry and the
scopes that the request resolves to. -/
theorem replaced_iff (lawful : codec.Lawful) {replies : List Reply}
    {rows rows' : List (StoredRow φ)}
    (h : run (stepAlone codec cols req.docId) (prepare codec services req, rows) replies =
      some (.ended .ok, rows')) :
    Replaced codec services req rows rows' ↔ Replaceable codec services req cols rows := by
  rcases run_ok h with ⟨hpcs, rfl⟩ | ⟨hpcs, expiresAt, hexp, rfl⟩
  · rw [Replaceable, if_pos hpcs]
    constructor
    · intro hr r hm
      have hnil := map_eq_nil_iff.mp (hr.chunks.trans (by rw [hpcs]; rfl))
      simpa using filter_eq_nil_iff.mp hnil r hm
    intro hn
    have hnil : rows'.filter (ofDoc req.docId) = [] :=
      filter_eq_nil_iff.mpr fun r hm => by simp [hn r hm]
    refine ⟨?_, ?_, fun r hm hd => ?_, rfl⟩
    · rw [hnil, hpcs]
      rfl
    · rw [hnil]
      exact nodup_nil
    · rw [hn r hm] at hd
      cases hd
  · rw [Replaceable, if_neg hpcs]
    exact replaced_added_iff lawful hexp hpcs rows

/-! ### Two versions of a document -/

/-- Every text is one piece; there is no front matter, no graph and no default expiry. -/
def sampleServices : Services Unit Unit where
  safeLoad _ := none
  relativeTo _ := none
  baseName path := path
  enricher _ text := (text, ())
  detect _ := "en"
  recursiveChunk text := [⟨text, 0, text.length⟩]
  noScopes _ := true
  buildSegments _ _ := []
  enrichChunk _ _ := []
  indexedAt := "2026-01-01T00:00:00.000000Z"
  defaultTtlSeconds := some none
  deadline _ := some ()
  extract _ := .proceeds
  embed texts := texts.map fun _ => [0x3f800000]

def sampleDocId : String := String.ofList (List.replicate 64 'a')

def sampleRequest (markdown : String) : Request where
  markdown := markdown
  path := "/notes.md"
  suffix := ".md"
  docId := sampleDocId
  ingestedBy := .http
  chunkTtlSeconds := some 60
  chunkScopes := some ["team"]
  diskBacked := true
  sidecar := ⟨"/notes.md.acl", false, ⟨none, none, none, []⟩⟩
  updatedAt := ""

def sampleRows : List (StoredRow ℚ) :=
  [rowOf sampleCodec Columns.all
    { (recordOf sampleServices (sampleRequest "draft")
      (some "2027-01-01T00:00:00.000000Z") 0 ⟨"draft", 0, 5⟩ : ChunkRecord ℚ) with
      vector := [0x3f800000] }]

/-- A second version takes the place of the first one. -/
theorem replaced_iff_secondVersion :
    ∃ rows', run (stepAlone sampleCodec Columns.all sampleDocId)
        (prepare sampleCodec sampleServices (sampleRequest "final"), sampleRows)
        [.returns, .returns, .returns] = some (.ended .ok, rows') ∧
      Replaced sampleCodec sampleServices (sampleRequest "final") sampleRows rows' := by
  have hbat : ∀ batch ∈ batchesOf sampleServices (sampleRequest "final")
      (some "2027-01-01T00:00:00.000000Z"),
      (batch.mapM (ingestChunk sampleCodec Columns.all)).isSome = true := by decide +kernel
  have hlen : (batchesOf sampleServices (sampleRequest "final")
      (some "2027-01-01T00:00:00.000000Z") : List (List (ChunkRecord ℚ))).length = 1 := by
    decide +kernel
  have hexp : resolvedExpiry sampleCodec sampleServices (sampleRequest "final") =
      some (some "2027-01-01T00:00:00.000000Z") := rfl
  have hr := run_returns (by decide) hexp rfl (by decide +kernel) hbat sampleRows
  rw [hlen] at hr
  exact ⟨_, hr, (replaced_iff sampleCodec_lawful hr).mpr (Or.inl rfl)⟩

/-- A version of white space ends with `ok`, and the row of the first one is still there. -/
theorem blank_text_keeps_rows :
    run (stepAlone sampleCodec Columns.all sampleDocId)
        (prepare sampleCodec sampleServices (sampleRequest " \n"), sampleRows) [] =
      some (.ended .ok, sampleRows) ∧
    ¬Replaced sampleCodec sampleServices (sampleRequest " \n") sampleRows sampleRows := by
  have hpcs : pieces sampleServices (sampleRequest " \n") = [] := by decide
  refine ⟨by rw [prepare, if_pos hpcs]; rfl, fun h => ?_⟩
  have hchs := h.chunks
  rw [hpcs] at hchs
  have hnil := filter_eq_nil_iff.mp (map_eq_nil_iff.mp hchs) _ mem_cons_self
  exact hnil (by simp [ofDoc, rowOf, recordOf, sampleRequest])

end ArchonSearch.Ingest
