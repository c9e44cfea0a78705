import ArchonSearch.Ingest.Replace

/-!
# Ingests of one document at a time

Any number of ingests of one document run interleaved. The collection lock is held inside
`delete_document` and inside each `ingest_chunks`, so a call is one step, and between two calls of
an ingest any call of another one can come. Two ingests may both delete the old rows before either
adds its own; then both versions are stored, under the same chunk ids (`both_versions_stored`).

An ingest is between its deletion and its last batch while it is adding (`World.IsAdding`). If no
ingest deletes while another one is adding, the rows of the document are those that the one that
adds has added so far, or one whole version (`Inv`); so once all ingests have ended with `ok` they
are one of the versions, each chunk id once: `one_version`.
-/

namespace ArchonSearch.Ingest

open Lib Py Export Acl List Option

/-! ### The ingests of a document -/

/-- Ingests of one document, each with its own services and request. -/
structure Setup (ι φ θ τ : Type) where
  codec : Codec φ τ
  cols : Columns
  docId : String
  services : ι → Services θ τ
  request : ι → Request
  docId_eq : ∀ i, (request i).docId = docId

/-- The table, and the ingests that were started. -/
structure World (ι φ : Type) where
  rows : List (StoredRow φ)
  tasks : ι → Option (Task φ)

/-- An ingest is started, or a call of it is answered. -/
inductive Event (ι : Type) where
  | start : ι → Event ι
  | call : ι → Reply → Event ι

variable {ι φ θ τ : Type} [DecidableEq ι]

namespace Setup

variable (S : Setup ι φ θ τ)

/-- One event; `none` where it cannot happen. -/
def step (s : World ι φ) : Event ι → Option (World ι φ)
  | .start i =>
    match s.tasks i with
    | none =>
      some { s with
        tasks := Function.update s.tasks i (some (prepare S.codec (S.services i) (S.request i))) }
    | some _ => none
  | .call i reply =>
    (s.tasks i).bind fun t => (t.step S.codec S.cols S.docId s.rows reply).map fun p =>
      { rows := p.2, tasks := Function.update s.tasks i (some p.1) }

omit [DecidableEq ι]

/-- The batches that an ingest is to store. -/
def batches (i : ι) : List (List (ChunkRecord φ)) :=
  batchesOf (S.services i) (S.request i)
    ((resolvedExpiry S.codec (S.services i) (S.request i)).getD none)

/-- The rows of the document as an ingest has read it. -/
def versionRows (i : ι) : List (StoredRow φ) :=
  (S.batches i).flatten.map (rowOf S.codec S.cols)

/-- The rows of the document in the table. -/
def docRows (s : World ι φ) : List (StoredRow φ) := s.rows.filter (ofDoc S.docId)

end Setup

namespace World

omit [DecidableEq ι]

/-- The ingest is between the deletion of the old rows and its last batch. -/
def IsAdding (s : World ι φ) (i : ι) : Prop :=
  ∃ batch batches, s.tasks i = some (.adding batch batches)

/-- All ingests have ended with `ok`. -/
def AllOk (s : World ι φ) : Prop := ∀ i, s.tasks i = some (.ended .ok)

/-- It has not deleted the old rows yet. -/
def IsDeleting (s : World ι φ) (i : ι) : Prop := ∃ batches, s.tasks i = some (.deleting batches)

/-- No ingest deletes the rows while another one adds its own. -/
def Apart (s : World ι φ) : Event ι → Prop
  | .start _ => True
  | .call i _ => s.IsDeleting i → ∀ k, k ≠ i → ¬s.IsAdding k

instance (s : World ι φ) (i : ι) : Decidable (s.IsAdding i) :=
  match h : s.tasks i with
  | some (.adding batch batches) => .isTrue ⟨batch, batches, h⟩
  | none | some (.deleting _) | some .finishing | some (.ended _) =>
    .isFalse fun ⟨_, _, hi⟩ => by simp [h] at hi

instance (s : World ι φ) (i : ι) : Decidable (s.IsDeleting i) :=
  match h : s.tasks i with
  | some (.deleting batches) => .isTrue ⟨batches, h⟩
  | none | some (.adding _ _) | some .finishing | some (.ended _) =>
    .isFalse fun ⟨_, hi⟩ => by simp [h] at hi

instance (s : World ι φ) [Fintype ι] : Decidable s.AllOk :=
  have (i : ι) : Decidable (s.tasks i = some (.ended .ok)) :=
    match h : s.tasks i with
    | some (.ended .ok) => .isTrue rfl
    | none | some (.ended .error) | some (.ended .raised) | some (.deleting _)
    | some (.adding _ _) | some .finishing => .isFalse (by simp)
  inferInstanceAs (Decidable (∀ i, _))

end World

instance (s : World ι φ) [Fintype ι] (e : Event ι) : Decidable (s.Apart e) := by
  unfold World.Apart
  split <;> infer_instance

/-! ### Versions -/

section Versions

omit [DecidableEq ι]

variable (S : Setup ι φ θ τ)

/-- The rows of a version are rows of the document. -/
theorem ofDoc_of_mem_versionRows {i : ι} {r : StoredRow φ} (h : r ∈ S.versionRows i) :
    ofDoc S.docId r = true := by
  have hd := docId_of_mem_batchesOf h
  rw [S.docId_eq i] at hd
  simp [ofDoc, hd]

/-- The rows of a version are the chunks of its text. -/
theorem map_versionRows (i : ι) :
    (S.versionRows i).map (fun r => (r.chunkId, r.text)) =
      (pieces (S.services i) (S.request i)).mapIdx fun k piece =>
        (chunkIdAt S.docId k, some piece.text) := by
  rw [← S.docId_eq i]
  exact map_rowOf_batchesOf _

theorem nodup_versionRows (i : ι) : ((S.versionRows i).map StoredRow.chunkId).Nodup :=
  nodup_chunkId_batchesOf _

theorem prepare_cases (i : ι) :
    let t : Task φ := prepare S.codec (S.services i) (S.request i)
    (∃ o, o ≠ .ok ∧ t = .ended o) ∨
    (t = .ended .ok ∧ pieces (S.services i) (S.request i) = []) ∨
    t = .deleting (S.batches i) := by
  intro t
  simp only [t, prepare, Setup.batches]
  split_ifs with hpcs
  · exact Or.inr (Or.inl ⟨rfl, hpcs⟩)
  · cases hexp : resolvedExpiry S.codec (S.services i) (S.request i) with
    | none => exact Or.inl ⟨.raised, by simp, rfl⟩
    | some expiresAt =>
      cases (S.services i).extract (pieces (S.services i) (S.request i)) with
      | fatal => exact Or.inl ⟨.error, by simp, rfl⟩
      | proceeds => exact Or.inr (Or.inr rfl)

end Versions

/-! ### One version at a time -/

section Invariant

variable (S : Setup ι φ θ τ)

omit [DecidableEq ι] in
/-- An ingest has ended without `ok`. -/
def World.SomeFailed (s : World ι φ) : Prop := ∃ i o, o ≠ .ok ∧ s.tasks i = some (.ended o)

/-- The ingest has added its rows. -/
def HasAdded (s : World ι φ) (i : ι) : Prop :=
  s.tasks i = some .finishing ∨
    (s.tasks i = some (.ended .ok) ∧ pieces (S.services i) (S.request i) ≠ [])

/-- At most one ingest is adding, and has added an initial part of its rows; where none is, the rows
of the document are those of one version, or as they were. -/
structure Inv (initial : List (StoredRow φ)) (s : World ι φ) : Prop where
  deleting : ∀ i batches, s.tasks i = some (.deleting batches) → batches = S.batches i
  adding : ∀ i batch batches, s.tasks i = some (.adding batch batches) →
    S.docRows s ++ (batch :: batches).flatten.map (rowOf S.codec S.cols) = S.versionRows i
  unique : ∀ i k, s.IsAdding i → s.IsAdding k → i = k
  idle : (∀ i, ¬s.IsAdding i) → (∃ i, S.docRows s = S.versionRows i) ∨
    (S.docRows s = initial ∧ ∀ i, ¬HasAdded S s i)

variable {S} {initial : List (StoredRow φ)} {s s' : World ι φ}

/-- The ingest moves on, and the table is this. -/
def World.put (s : World ι φ) (i : ι) (t : Task φ) (rows : List (StoredRow φ)) : World ι φ :=
  ⟨rows, Function.update s.tasks i (some t)⟩

variable {rows : List (StoredRow φ)} {t : Task φ} {i : ι}

theorem World.put_tasks_eq_some {k : ι} {t' : Task φ} :
    (s.put i t rows).tasks k = some t' ↔ (k = i ∧ t' = t) ∨ (k ≠ i ∧ s.tasks k = some t') := by
  by_cases hk : k = i
  · subst hk
    simp [World.put, eq_comm]
  · simp [World.put, hk]

theorem World.isAdding_put {k : ι} :
    (s.put i t rows).IsAdding k ↔
      (k = i ∧ ∃ batch batches, t = .adding batch batches) ∨ (k ≠ i ∧ s.IsAdding k) := by
  simp only [World.IsAdding, World.put_tasks_eq_some]
  constructor
  · rintro ⟨batch, batches, ⟨hk, ht⟩ | ⟨hk, ht⟩⟩
    · exact Or.inl ⟨hk, batch, batches, ht.symm⟩
    · exact Or.inr ⟨hk, batch, batches, ht⟩
  · rintro (⟨hk, batch, batches, ht⟩ | ⟨hk, batch, batches, ht⟩)
    · exact ⟨batch, batches, Or.inl ⟨hk, ht.symm⟩⟩
    · exact ⟨batch, batches, Or.inr ⟨hk, ht⟩⟩

variable {e : Event ι}

theorem step_cases (h : S.step s e = some s') :
    (∃ i, e = .start i ∧ s.tasks i = none ∧
      s' = s.put i (prepare S.codec (S.services i) (S.request i)) s.rows) ∨
    (∃ i reply t t' rows, e = .call i reply ∧ s.tasks i = some t ∧
      t.step S.codec S.cols S.docId s.rows reply = some (t', rows) ∧ s' = s.put i t' rows) := by
  cases e with
  | start i =>
    cases htask : s.tasks i with
    | none =>
      simp only [Setup.step, htask] at h
      exact Or.inl ⟨i, rfl, htask, (some.inj h).symm⟩
    | some t =>
      simp only [Setup.step, htask] at h
      cases h
  | call i reply =>
    obtain ⟨t, htask, hs⟩ := bind_eq_some_iff.mp h
    obtain ⟨⟨t', rows⟩, hp, rfl⟩ := map_eq_some_iff.mp hs
    exact Or.inr ⟨i, reply, t, t', rows, rfl, htask, hp, rfl⟩

theorem someFailed_step (h : s.SomeFailed) (hs : S.step s e = some s') :
    s'.SomeFailed := by
  obtain ⟨k, o, ho, hk⟩ := h
  rcases step_cases hs with ⟨i, -, hn, rfl⟩ | ⟨i, reply, t, t', rows, -, ht, hc, rfl⟩
  · refine ⟨k, o, ho, World.put_tasks_eq_some.mpr (Or.inr ⟨?_, hk⟩)⟩
    rintro rfl
    rw [hn] at hk
    cases hk
  · refine ⟨k, o, ho, World.put_tasks_eq_some.mpr (Or.inr ⟨?_, hk⟩)⟩
    rintro rfl
    rw [hk] at ht
    cases ht
    cases hc

omit [DecidableEq ι] in
theorem ofBatches_eq_adding {batches batches' : List (List (ChunkRecord φ))}
    {batch : List (ChunkRecord φ)} (h : Task.ofBatches batches = .adding batch batches') :
    batches = batch :: batches' := by
  cases batches with
  | nil => cases h
  | cons b bs =>
    cases h
    rfl

/-- An ingest that is the only one to add leaves the invariant as it is, if what the
document has and what it has left make up its version. -/
theorem Inv.put_ofBatches (h : Inv S initial s) (halone : ∀ k, k ≠ i → ¬s.IsAdding k)
    {batches : List (List (ChunkRecord φ))}
    (hrw : rows.filter (ofDoc S.docId) ++ batches.flatten.map (rowOf S.codec S.cols) =
      S.versionRows i) :
    Inv S initial (s.put i (.ofBatches batches) rows) := by
  have honly : ∀ k, (s.put i (.ofBatches batches) rows).IsAdding k → k = i := by
    intro k hk
    rcases World.isAdding_put.mp hk with ⟨rfl, -⟩ | ⟨hne, hk⟩
    · rfl
    · exact absurd hk (halone k hne)
  refine ⟨fun k batches' hk => ?_, fun k batch batches' hk => ?_, fun k l hk hl => ?_, fun hn => ?_⟩
  · rcases World.put_tasks_eq_some.mp hk with ⟨-, ht⟩ | ⟨-, hk⟩
    · cases batches <;> cases ht
    · exact h.deleting k batches' hk
  · obtain rfl := honly k ⟨batch, batches', hk⟩
    rcases World.put_tasks_eq_some.mp hk with ⟨-, ht⟩ | ⟨hne, -⟩
    · obtain rfl := ofBatches_eq_adding ht.symm
      exact hrw
    · exact absurd rfl hne
  · rw [honly k hk, honly l hl]
  · cases batches with
    | nil =>
      refine Or.inl ⟨i, ?_⟩
      rw [← hrw, flatten_nil, map_nil, append_nil]
      rfl
    | cons batch batches =>
      exact absurd (World.isAdding_put.mpr (Or.inl ⟨rfl, batch, batches, rfl⟩)) (hn i)

/-- An ingest that does not add, before or after, and leaves the rows as they are. -/
theorem Inv.put_same (h : Inv S initial s)
    (hbef : ¬s.IsAdding i) (haft : ∀ batch batches, t ≠ .adding batch batches)
    (hdel : ∀ batches, t = .deleting batches → batches = S.batches i)
    (hadded : HasAdded S (s.put i t s.rows) i → HasAdded S s i) :
    Inv S initial (s.put i t s.rows) := by
  have hadd : ∀ k, (s.put i t s.rows).IsAdding k ↔ s.IsAdding k := by
    intro k
    rw [World.isAdding_put]
    constructor
    · rintro (⟨-, batch, batches, ht⟩ | ⟨-, hk⟩)
      · exact absurd ht (haft batch batches)
      · exact hk
    · intro hk
      exact Or.inr ⟨fun hki => hbef (hki ▸ hk), hk⟩
  refine ⟨fun k batches hk => ?_, fun k batch batches hk => ?_, fun k l hk hl => ?_, fun hn => ?_⟩
  · rcases World.put_tasks_eq_some.mp hk with ⟨rfl, ht⟩ | ⟨-, hk⟩
    · exact hdel batches ht.symm
    · exact h.deleting k batches hk
  · rcases World.put_tasks_eq_some.mp hk with ⟨-, ht⟩ | ⟨-, hk⟩
    · exact absurd ht.symm (haft batch batches)
    · exact h.adding k batch batches hk
  · exact h.unique k l ((hadd k).mp hk) ((hadd l).mp hl)
  · rcases h.idle fun k hk => hn k ((hadd k).mpr hk) with hver | ⟨hrw, hnot⟩
    · exact Or.inl hver
    · refine Or.inr ⟨hrw, fun k hk => hnot k ?_⟩
      by_cases hki : k = i
      · subst hki
        exact hadded hk
      · simpa [HasAdded, World.put, hki] using hk

/-- **One event keeps the invariant**, when no ingest deletes while another one adds,
unless an ingest fails. -/
theorem Inv.step (h : Inv S initial s) (hapart : s.Apart e)
    (hs : S.step s e = some s') : Inv S initial s' ∨ s'.SomeFailed := by
  rcases step_cases hs with ⟨i, rfl, hn, rfl⟩ | ⟨i, reply, t, t', rows, rfl, ht, hc, rfl⟩
  · have hbef : ¬s.IsAdding i := by
      rintro ⟨batch, batches, hi⟩
      rw [hn] at hi
      cases hi
    rcases prepare_cases S i with ⟨o, ho, hprep⟩ | ⟨hprep, hpcs⟩ | hprep <;>
      rw [hprep]
    · exact Or.inr ⟨i, o, ho, World.put_tasks_eq_some.mpr (Or.inl ⟨rfl, rfl⟩)⟩
    · refine Or.inl (h.put_same hbef (by simp) (by simp) ?_)
      rintro (hi | ⟨-, hne⟩)
      · simp [World.put] at hi
      · exact absurd hpcs hne
    · refine Or.inl (h.put_same hbef (by simp) (fun batches hb => ?_) ?_)
      · exact (Task.deleting.inj hb).symm
      · rintro (hi | ⟨hi, -⟩) <;> simp [World.put] at hi
  · rcases Task.step_cases hc with ⟨o, ho, rfl⟩ | ⟨batches, rfl, rfl, rfl⟩ |
      ⟨batch, batches, added, rfl, hadded, rfl, rfl⟩ | ⟨rfl, rfl, rfl⟩
    · exact Or.inr ⟨i, o, ho, World.put_tasks_eq_some.mpr (Or.inl ⟨rfl, rfl⟩)⟩
    · -- the deletion: nothing of the document is left, and all batches are to be added
      refine Or.inl (h.put_ofBatches (hapart ⟨batches, ht⟩) ?_)
      rw [h.deleting i batches ht, List.filter_filter]
      simp [Setup.versionRows]
    · -- a batch moves from what is left to what the document has
      have hver := h.adding i batch batches ht
      refine Or.inl (h.put_ofBatches (fun k hk hadd => ?_) ?_)
      · exact hk (h.unique k i hadd ⟨batch, batches, ht⟩)
      · have hmap := mapM_ingestChunk_eq_some hadded
        have hd : added.filter (ofDoc S.docId) = added := by
          refine filter_eq_self.mpr fun r hr => ofDoc_of_mem_versionRows S (i := i) ?_
          rw [← hver, flatten_cons, map_append, ← hmap]
          exact mem_append_right _ (mem_append_left _ hr)
        rw [filter_append, hd, hmap, append_assoc, ← map_append, ← flatten_cons]
        exact hver
    · have hbef : ¬s.IsAdding i := by
        rintro ⟨batch, batches, hi⟩
        rw [ht] at hi
        cases hi
      exact Or.inl (h.put_same hbef (by simp) (by simp) fun _ => Or.inl ht)

/-- **Once all ingests have ended with `ok`, the document is one of the versions.** In every
run in which no ingest deletes while another one adds, the rows of the document are then
the chunks of one of the texts, each chunk id once; when none of the texts has a piece,
this takes that the document had no row at the start. -/
theorem one_version [Nonempty ι] {events : List (Event ι)} (hstart : ∀ i, s.tasks i = none)
    (hold : (∀ r ∈ s.rows, ofDoc S.docId r = false) ∨ ∃ i, pieces (S.services i) (S.request i) ≠ [])
    (hapart : Along S.step World.Apart s events) (hrun : run S.step s events = some s')
    (hok : s'.AllOk) :
    ∃ i, S.docRows s' = S.versionRows i ∧
      (S.docRows s').map (fun r => (r.chunkId, r.text)) =
        ((pieces (S.services i) (S.request i)).mapIdx fun k piece =>
          (chunkIdAt S.docId k, some piece.text)) ∧
      ((S.docRows s').map StoredRow.chunkId).Nodup := by
  have hinit : Inv S (S.docRows s) s := by
    have hno : ∀ i t, s.tasks i ≠ some t := fun i t => by simp [hstart i]
    refine ⟨fun i batches hi => absurd hi (hno i _), fun i batch batches hi => absurd hi (hno i _),
      fun i _ hi => ?_, fun _ => Or.inr ⟨rfl, fun i hi => ?_⟩⟩
    · obtain ⟨batch, batches, hi⟩ := hi
      exact absurd hi (hno i _)
    · rcases hi with hi | ⟨hi, -⟩ <;> exact absurd hi (hno i _)
  have hinv : Inv S (S.docRows s) s' ∨ s'.SomeFailed := by
    refine run_invariant_along (I := fun w => Inv S (S.docRows s) w ∨ w.SomeFailed)
      (fun w e w' hw hI hs => ?_) hapart (Or.inl hinit) hrun
    rcases hI with hI | hfa
    · exact hI.step hw hs
    · exact Or.inr (someFailed_step hfa hs)
  have hver : ∃ i, S.docRows s' = S.versionRows i := by
    rcases hinv with hinv | ⟨i, o, ho, hi⟩
    · have hidle : ∀ i, ¬s'.IsAdding i := by
        rintro i ⟨batch, batches, hi⟩
        rw [hok i] at hi
        cases hi
      rcases hinv.idle hidle with hver | ⟨hrw, hnot⟩
      · exact hver
      -- nobody has added: no text has a piece, so the document had no row
      have hpcs : ∀ i, pieces (S.services i) (S.request i) = [] := by
        intro i
        by_contra hne
        exact hnot i (Or.inr ⟨hok i, hne⟩)
      rcases hold with hn | ⟨i, hne⟩
      · refine ⟨Classical.arbitrary ι, ?_⟩
        have hchs := map_versionRows S (Classical.arbitrary ι)
        rw [hpcs] at hchs
        rw [hrw, map_eq_nil_iff.mp hchs]
        exact filter_eq_nil_iff.mpr fun r hr => by simp [hn r hr]
      · exact absurd (hpcs i) hne
    · rw [hok i] at hi
      exact absurd (Task.ended.inj (some.inj hi)).symm ho
  obtain ⟨i, hi⟩ := hver
  exact ⟨i, hi, by rw [hi, map_versionRows], by rw [hi]; exact nodup_versionRows S i⟩

end Invariant

/-! ### Two ingests -/

/-- Two ingests of one document: a draft, and the final text. -/
def sampleSetup : Setup Bool ℚ Unit Unit where
  codec := sampleCodec
  cols := Columns.all
  docId := sampleDocId
  services _ := sampleServices
  request
    | false => sampleRequest "draft"
    | true => sampleRequest "final"
  docId_eq i := by cases i <;> rfl

/-- An empty table. -/
def sampleWorld : World Bool ℚ := ⟨[], fun _ => none⟩

/-- One ingest comes to its end before the other deletes. -/
def inTurn : List (Event Bool) :=
  [.start false, .start true, .call false .returns, .call false .returns, .call true .returns,
    .call true .returns, .call false .returns, .call true .returns]

/-- Both delete before either adds. -/
def overlapping : List (Event Bool) :=
  [.start false, .start true, .call false .returns, .call true .returns, .call false .returns,
    .call true .returns, .call false .returns, .call true .returns]

/-- One after the other, the second version is stored. -/
theorem one_version_inTurn :
    ∃ s, run sampleSetup.step sampleWorld inTurn = some s ∧ s.AllOk ∧
      ∃ i, sampleSetup.docRows s = sampleSetup.versionRows i := by
  obtain ⟨s, hs, hok⟩ : ∃ s ∈ run sampleSetup.step sampleWorld inTurn, s.AllOk := by decide +kernel
  obtain ⟨i, hi, -⟩ := one_version (fun _ => rfl) (Or.inl (by simp [sampleWorld]))
    (show Along sampleSetup.step World.Apart sampleWorld inTurn by decide +kernel) hs hok
  exact ⟨s, hs, hok, i, hi⟩

/-- Both versions are stored, and every chunk id is there twice. -/
theorem both_versions_stored :
    ∃ s, run sampleSetup.step sampleWorld overlapping = some s ∧ s.AllOk ∧
      (sampleSetup.docRows s).map StoredRow.chunkId =
        [chunkIdAt sampleDocId 0, chunkIdAt sampleDocId 0] ∧
      (sampleSetup.docRows s).map StoredRow.text = [some "draft", some "final"] ∧
      ∀ i, sampleSetup.docRows s ≠ sampleSetup.versionRows i := by
  obtain ⟨s, hs, hok, hids, htex⟩ : ∃ s ∈ run sampleSetup.step sampleWorld overlapping, s.AllOk ∧
      (sampleSetup.docRows s).map StoredRow.chunkId =
        [chunkIdAt sampleDocId 0, chunkIdAt sampleDocId 0] ∧
      (sampleSetup.docRows s).map StoredRow.text = [some "draft", some "final"] := by
    decide +kernel
  refine ⟨s, hs, hok, hids, htex, fun i hi => ?_⟩
  have hnd := nodup_versionRows sampleSetup i
  rw [← hi, hids] at hnd
  simp at hnd

end ArchonSearch.Ingest
