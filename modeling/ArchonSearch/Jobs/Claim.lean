import ArchonSearch.Lib.Run
import ArchonSearch.Jobs.Atomicity
import ArchonSearch.Jobs.Recovery

/-!
# The claim of a collection by an import

An import that is about to write a collection claims it: `_claim_collection` revokes the claim of
every other import of the collection, one persisted update after the other, and then records its
own. At most one import per collection name then holds a claim that is not revoked, in memory and
in the file, however far a claim got before the process died: `uniqueClaims_of_run`.

Nothing runs between the writes of a claim – there is no `await` in it – but any of them may fail,
and the process may die after any of them. What holds in between is that every import still to be
revoked is on the list of the loop (`Inv`). The file is always the image of a table that was once
in memory, so it needs no argument of its own: `StoreOk`.
-/

namespace ArchonSearch.Jobs.Claim

open Py Lib List Option

/-! ### Claims -/

/-- The collection a job has claimed without the claim having been revoked:
`collection_claimed` is true and `collection_claim_revoked` is false. -/
def claim? (j : Job) : Option String :=
  match j.payload with
  | .importJob f =>
    match f.collectionClaimed, f.collectionClaimRevoked, j.collection with
    | .bool true, .bool false, .str c => some c
    | _, _, _ => none
  | _ => none

/-- **At most one import holds a claim** on a collection. -/
def UniqueClaims (t : Table) : Prop :=
  ∀ j₁ ∈ t, ∀ j₂ ∈ t, ∀ c, claim? j₁ = some c → claim? j₂ = some c → j₁ = j₂

def ClaimsFrom (t t' : Table) : Prop :=
  ∀ j' ∈ t', ∀ c, claim? j' = some c → ∃ j ∈ t, j.key = j'.key ∧ claim? j = some c

variable {t : Table} {t' : Table}

theorem UniqueClaims.of_claimsFrom (h : UniqueClaims t) (hfrom : ClaimsFrom t t') :
    UniqueClaims t' := by
  intro j₁' hj₁' j₂' hj₂' c hc₁ hc₂
  obtain ⟨j₁, hj₁, hk₁, hc₁⟩ := hfrom j₁' hj₁' c hc₁
  obtain ⟨j₂, hj₂, hk₂, hc₂⟩ := hfrom j₂' hj₂' c hc₂
  refine Keyed.eq_of_key_eq hj₁' hj₂' ?_
  rw [← hk₁, ← hk₂, h j₁ hj₁ j₂ hj₂ c hc₁ hc₂]

theorem ClaimsFrom.of_subset (h : ∀ j ∈ t', j ∈ t) : ClaimsFrom t t' :=
  fun j hj _ hc => ⟨j, h j hj, rfl, hc⟩

theorem claimsFrom_filter (t : Table) (p : Job → Bool) : ClaimsFrom t (t.filter p) :=
  ClaimsFrom.of_subset fun _ hj => (Keyed.mem_filter.mp hj).1

theorem ClaimsFrom.trans {t'' : Table} (h : ClaimsFrom t t') (h' : ClaimsFrom t' t'') :
    ClaimsFrom t t'' := by
  intro j'' hj'' c hc
  obtain ⟨j', hj', hk', hc'⟩ := h' j'' hj'' c hc
  obtain ⟨j, hj, hk, hc⟩ := h j' hj' c hc'
  exact ⟨j, hj, hk.trans hk', hc⟩

variable {job : Job}

/-- Storing a job whose claim, if any, is one of the table. -/
theorem claimsFrom_insert (h : ClaimsFrom t t')
    (hjob : ∀ c, claim? job = some c → ∃ j ∈ t, j.key = job.key ∧ claim? j = some c) :
    ClaimsFrom t (t'.insert job) := by
  intro j hj c hc
  rcases Keyed.mem_insert.mp hj with rfl | ⟨hj, -⟩
  · exact hjob c hc
  · exact h j hj c hc

@[simp] theorem claim?_stamped {fromisoformat : String → Option ℤ} (r : Reading fromisoformat)
    (j : Job) : claim? (stamped r j) = claim? j := rfl

/-! ### The machine -/

/-- An update that leaves the claim of a job alone, as every update but those of
`_claim_collection` does. -/
structure PlainUpdate extends FieldUpdate where
  claim?_apply : ∀ j, claim? (apply j) = claim? j

/-- `collection_claim_revoked=True`. -/
def revoke : FieldUpdate where
  apply j :=
    match j.payload with
    | .importJob f =>
      { j with payload := .importJob { f with collectionClaimRevoked := .bool true } }
    | _ => j
  key_apply j := by split <;> rfl

/-- The own claim: `update_progress` with the two flags and the resume position. -/
def claimUpdate (processed total skip : ℤ) : FieldUpdate where
  apply j :=
    match j.payload with
    | .importJob f =>
      { j with
        progress := .obj [("processed", .int processed), ("total", .int total),
          ("phase", .str "validating")]
        payload := .importJob
          { f with
            linesConsumed := .int skip
            collectionClaimed := .bool true
            collectionClaimRevoked := .bool false } }
    | _ => j
  key_apply j := by split <;> rfl

def ofCollection (collection : String) (j : Job) : Bool :=
  match j.collection with
  | .str c => c == collection
  | _ => false

/-- The jobs the loop of `_claim_collection` revokes. -/
def isOther (own : Key) (collection : String) (j : Job) : Bool :=
  match j.payload with
  | .importJob f =>
    j.key != own && ofCollection collection j && !f.collectionClaimRevoked.truthy
  | _ => false

/-- A `_claim_collection` under way. -/
structure Claiming where
  own : Key
  collection : String
  others : List Key

structure State where
  store : Store
  claiming : Option Claiming

inductive Event (fromisoformat : String → Option ℤ) where
  /-- `create_job`. -/
  | create : Attempt fromisoformat → Job → Event fromisoformat
  /-- `update`, other than in a claim. -/
  | update : Reading fromisoformat → ℤ → WriteOutcome → Key → PlainUpdate → Event fromisoformat
  | transition : Attempt fromisoformat → Key → List JobStatus → JobStatus → PlainUpdate →
      Event fromisoformat
  | cancelIngestRetries : Attempt fromisoformat → String → Event fromisoformat
  /-- `_claim_collection` is called, for a job and its collection. -/
  | claimStart : Key → String → Event fromisoformat
  | revokeNext : Reading fromisoformat → ℤ → WriteOutcome → Event fromisoformat
  | claimEnd : Reading fromisoformat → ℤ → WriteOutcome → (processed total skip : ℤ) →
      Event fromisoformat
  | restart : (ℕ → Reading fromisoformat) → ℤ → ℤ → WriteOutcome → Event fromisoformat

def ownMatches (t : Table) (own : Key) (collection : String) : Bool :=
  match t.get? own with
  | none => true
  | some j => ofCollection collection j

variable {fromisoformat : String → Option ℤ}

/-- The calls of the store and the writes of a claim. While a claim is under way nothing
else runs. A job is created without a claim. -/
def step (s : State) : Event fromisoformat → Option State
  | .create a job =>
    if s.claiming.isNone ∧ claim? job = none then
      some { s with store := (createJob a job s.store).store }
    else none
  | .update r now outcome jobId fields =>
    if s.claiming.isNone then
      some { s with store := (Jobs.update r now outcome jobId fields.toFieldUpdate s.store).1 }
    else none
  | .transition a jobId fromStatuses toStatus fields =>
    if s.claiming.isNone then
      some { s with
        store :=
          (Jobs.transition a jobId fromStatuses toStatus fields.toFieldUpdate s.store).store }
    else none
  | .cancelIngestRetries a collection =>
    if s.claiming.isNone then
      some { s with store := (Jobs.cancelIngestRetries a collection s.store).store }
    else none
  | .claimStart own collection =>
    if s.claiming.isNone ∧ ownMatches s.store.jobs own collection = true then
      some { s with
        claiming := some
          ⟨own, collection, (s.store.jobs.items.filter (isOther own collection)).map Job.key⟩ }
    else none
  | .revokeNext r now outcome =>
    match s.claiming with
    | some ⟨own, collection, k :: rest⟩ =>
      match Jobs.update r now outcome k revoke s.store with
      -- an error other than a missing job ends the claim
      | (store, .notPersisted) => some ⟨store, none⟩
      | (store, _) => some ⟨store, some ⟨own, collection, rest⟩⟩
    | _ => none
  | .claimEnd r now outcome processed total skip =>
    match s.claiming with
    | some ⟨own, _, []⟩ =>
      some ⟨(Jobs.update r now outcome own (claimUpdate processed total skip) s.store).1, none⟩
    | _ => none
  | .restart readings now₁ now₂ outcome =>
    some ⟨(reopen readings now₁ now₂ outcome s.store.file).1.store, none⟩

def State.init : State := ⟨⟨Keyed.empty, .missing⟩, none⟩

/-! ### What is in the file -/

def FileOk (file : JobsFile) : Prop :=
  file = .missing ∨ ∃ t, UniqueClaims t ∧ file = .json (encodeTable t)

structure StoreOk (s : Store) : Prop where
  jobs : UniqueClaims s.jobs
  file : FileOk s.file

variable {file : JobsFile}

/-- A file that is fine decodes to a table that is. -/
theorem FileOk.uniqueClaims (h : FileOk file)
    (ht : decodeTable file = some t) : UniqueClaims t := by
  rcases h with rfl | ⟨t', ht', rfl⟩
  · cases ht
  · rw [decodeTable_encodeTable] at ht
    cases ht
    exact ht'

variable {s : Store} {outcome : WriteOutcome} {now : ℤ}

/-- A write evicts, and leaves the old file or one with what is in memory. -/
theorem StoreOk.writeAtomic {s' : Store} (h : StoreOk s)
    {raised : Bool} (hw : writeAtomic fromisoformat now outcome s = (s', raised)) :
    StoreOk s' := by
  cases hevict : evictOld fromisoformat now s.jobs with
  | none =>
    simp only [Jobs.writeAtomic, hevict, Prod.mk.injEq] at hw
    obtain ⟨rfl, -⟩ := hw
    exact h
  | some jobs =>
    simp only [Jobs.writeAtomic, hevict, Prod.mk.injEq] at hw
    obtain ⟨rfl, -⟩ := hw
    obtain ⟨-, rfl⟩ := evictOld_eq_some_iff.mp hevict
    have hjs := h.jobs.of_claimsFrom
      (claimsFrom_filter s.jobs fun j => !j.expired fromisoformat now)
    refine ⟨hjs, ?_⟩
    rcases outcome.publish_eq_or s.file _ with hold | hnew
    · rw [hold]
      exact h.file
    · rw [hnew]
      exact Or.inr ⟨_, hjs, rfl⟩

/-! ### The calls of the store -/

/-- A call that adds no claim, neither with its new table nor by undoing it. -/
theorem StoreOk.persistOrRollback (h : StoreOk s) (a : Attempt fromisoformat)
    {new : Table} {restore : Table → Table} (hw : ClaimsFrom s.jobs new)
    (hres : ∀ p, ClaimsFrom s.jobs (restore (new.filter p))) :
    StoreOk (persistOrRollback a s new restore).1 := by
  have hok : StoreOk { s with jobs := new } := ⟨h.jobs.of_claimsFrom hw, h.file⟩
  rcases persistOrRollback_cases a s new restore with
    ⟨s₁, h₁, heq⟩ | ⟨s₁, s₂, raised, h₁, h₂, heq⟩
  · rw [heq]
    exact hok.writeAtomic h₁
  · rw [heq]
    obtain ⟨p, hp, -⟩ := jobs_writeAtomic h₁
    have hback : StoreOk { s₁ with jobs := restore s₁.jobs } := by
      refine ⟨?_, (hok.writeAtomic h₁).file⟩
      rw [hp]
      exact h.jobs.of_claimsFrom (hres p)
    exact hback.writeAtomic h₂

theorem StoreOk.createJob (h : StoreOk s) (a : Attempt fromisoformat)
    (hjob : claim? job = none) : StoreOk (createJob a job s).store := by
  have hw : ClaimsFrom s.jobs (s.jobs.insert job) :=
    claimsFrom_insert (ClaimsFrom.of_subset fun _ hj => hj) fun c hc => by simp [hjob] at hc
  refine h.persistOrRollback a hw fun p => ?_
  refine hw.trans (ClaimsFrom.of_subset fun j hj => ?_)
  exact (Keyed.mem_filter.mp (Keyed.mem_erase.mp hj).1).1

theorem StoreOk.transition (h : StoreOk s) (a : Attempt fromisoformat) (jobId : Key)
    (fromStatuses : List JobStatus) (toStatus : JobStatus) (fields : PlainUpdate) :
    StoreOk (transition a jobId fromStatuses toStatus fields.toFieldUpdate s).store := by
  cases hjob : s.jobs.get? jobId with
  | none =>
    simp only [Jobs.transition, hjob]
    exact h
  | some job =>
    obtain ⟨hm, -⟩ := Keyed.get?_eq_some_iff.mp hjob
    by_cases hfrom : job.status ∈ fromStatuses
    · simp only [Jobs.transition, hjob, if_pos hfrom]
      have hw : ClaimsFrom s.jobs
          (s.jobs.insert (transitioned a.stamp toStatus fields.toFieldUpdate job)) := by
        refine claimsFrom_insert (ClaimsFrom.of_subset fun _ hj => hj) fun c hc => ?_
        refine ⟨job, hm, (fields.key_apply job).symm, ?_⟩
        rw [← fields.claim?_apply job]
        exact hc
      refine h.persistOrRollback a hw fun p => ?_
      exact claimsFrom_insert (hw.trans (claimsFrom_filter _ p)) fun c hc => ⟨job, hm, rfl, hc⟩
    · simp only [Jobs.transition, hjob, if_neg hfrom]
      exact h

theorem claim?_cancelledRetry (r : Reading fromisoformat) (collection : String) (j : Job) :
    claim? (cancelledRetry r collection j) = claim? j := by
  unfold cancelledRetry
  split_ifs <;> rfl

theorem StoreOk.cancelIngestRetries (h : StoreOk s) (a : Attempt fromisoformat)
    (collection : String) : StoreOk (cancelIngestRetries a collection s).store := by
  unfold Jobs.cancelIngestRetries
  dsimp only
  split_ifs with hn
  · exact h
  have hw : ClaimsFrom s.jobs (s.jobs.map (cancelledRetry a.stamp collection)
      (key_cancelledRetry a.stamp collection)) := by
    intro j' hj' c hc
    obtain ⟨j, hj, rfl⟩ := Keyed.mem_map.mp hj'
    rw [claim?_cancelledRetry] at hc
    exact ⟨j, hj, (key_cancelledRetry a.stamp collection j).symm, hc⟩
  refine h.persistOrRollback a hw fun p j hj c hc => ?_
  -- a job is one that was put back, or one the failed write left in memory
  rcases Keyed.mem_of_mem_foldl_insert hj with hj | hold
  · exact (hw.trans (claimsFrom_filter _ p)) j hj c hc
  · exact ⟨j, mem_of_mem_filter hold, rfl, hc⟩

theorem StoreOk.update (h : StoreOk s) (r : Reading fromisoformat) (now : ℤ)
    (outcome : WriteOutcome) (jobId : Key) {fields : FieldUpdate}
    (hflds : ∀ j c, claim? (fields.apply j) = some c → claim? j = some c) :
    StoreOk (update r now outcome jobId fields s).1 := by
  rcases update_cases r now outcome jobId fields s with
    ⟨-, heq⟩ | ⟨job, hm, -, s', raised, hw, heq⟩
  · rw [heq]
    exact h
  · rw [heq]
    have hok : StoreOk { s with jobs := s.jobs.insert (stamped r (fields.apply job)) } := by
      refine ⟨h.jobs.of_claimsFrom ?_, h.file⟩
      refine claimsFrom_insert (ClaimsFrom.of_subset fun _ hj => hj) fun c hc => ?_
      exact ⟨job, hm, (fields.key_apply job).symm, hflds job c hc⟩
    exact hok.writeAtomic hw

/-- What `_load` finds has the claims of the table that was written. -/
theorem uniqueClaims_loadFile (h : FileOk file)
    (readings : ℕ → Reading fromisoformat) (now : ℤ) :
    UniqueClaims (loadFile readings now file).jobs := by
  have hemp : UniqueClaims Keyed.empty := fun j hj => absurd hj (Keyed.notMem_empty j)
  rcases h with rfl | ⟨t, ht, rfl⟩
  · exact hemp
  cases hl : load readings now (encodeTable t) with
  | none =>
    simp only [loadFile, hl, getD_none]
    exact hemp
  | some loaded =>
    simp only [loadFile, hl, getD_some]
    obtain ⟨rows, es, hrw, hes, -, hjs, -⟩ := load_cases hl
    obtain rfl : t.items.map encodeJob = rows :=
      some.inj ((rows?_encodeTable t).symm.trans hrw)
    rw [loadRows_encodeJob] at hes
    cases hes
    refine ht.of_claimsFrom fun j hj c hc => ?_
    rw [hjs] at hj
    obtain ⟨e, he, rfl⟩ := List.mem_map.mp (Keyed.mem_of_mem_ofList (Keyed.mem_filter.mp hj).1)
    obtain ⟨i, hi, rfl⟩ := mem_mapIdx.mp he
    refine ⟨t.items[i], getElem_mem hi, (Rewrite.key_apply _ _ _).symm, ?_⟩
    rw [← hc]
    cases t.items[i].rewriteOnLoad <;> rfl

theorem storeOk_reopen (h : FileOk file) (readings : ℕ → Reading fromisoformat)
    (now₁ now₂ : ℤ) (outcome : WriteOutcome) :
    StoreOk (reopen readings now₁ now₂ outcome file).1.store := by
  have hok : StoreOk ⟨(loadFile readings now₁ file).jobs, file⟩ :=
    ⟨uniqueClaims_loadFile h readings now₁, h⟩
  unfold reopen
  dsimp only
  split_ifs
  · exact hok.writeAtomic rfl
  · exact hok

/-! ### The writes of a claim -/

theorem claim?_revoke (j : Job) : claim? (revoke.apply j) = none := by
  unfold revoke claim?
  cases hp : j.payload <;> simp [hp]

variable {j : Job} {c : String}

theorem collection_of_claim? (h : claim? j = some c) :
    j.collection = .str c := by
  unfold claim? at h
  split at h
  · split at h
    · rename_i hc
      rw [hc, some.inj h]
    · cases h
  · cases h

theorem collection_claimUpdate (processed total skip : ℤ) (j : Job) :
    ((claimUpdate processed total skip).apply j).collection = j.collection := by
  unfold claimUpdate
  cases hp : j.payload <;> simp [hp]

theorem collection_revoke (j : Job) : (revoke.apply j).collection = j.collection := by
  unfold revoke
  cases hp : j.payload <;> simp [hp]

variable {own : Key}

/-- The loop revokes every other job that has claimed the collection. -/
theorem isOther_of_claim? (h : claim? j = some c)
    (hk : j.key ≠ own) : isOther own c j = true := by
  have hcoll := collection_of_claim? h
  unfold claim? at h
  split at h
  · rename_i f hp
    split at h
    · rename_i hrev _
      simp [isOther, hp, ofCollection, hcoll, hrev, Json.truthy, hk]
    · cases h
  · cases h

/-- What holds while a claim is under way: whoever else has claimed the collection is
still to be revoked, and the claiming job is of that collection. -/
structure Underway (t : Table) (c : Claiming) : Prop where
  others : ∀ j ∈ t, claim? j = some c.collection → j.key = c.own ∨ j.key ∈ c.others
  own : ∀ j ∈ t, j.key = c.own → j.collection = .str c.collection

/-- The store is sound, and so is the claim that is underway. -/
structure Inv (s : State) : Prop where
  store : StoreOk s.store
  underway : ∀ c, s.claiming = some c → Underway s.store.jobs c

variable {collection : String}

theorem ofCollection_eq_true
    (h : ofCollection collection j = true) : j.collection = .str collection := by
  unfold ofCollection at h
  split at h
  · rename_i hc
    rw [hc, beq_iff_eq.mp h]
  · cases h

theorem underway_claimStart
    (h : ownMatches t own collection = true) :
    Underway t ⟨own, collection, (t.items.filter (isOther own collection)).map Job.key⟩ := by
  constructor
  · intro j hj hc
    by_cases hk : j.key = own
    · exact Or.inl hk
    · exact Or.inr (List.mem_map.mpr ⟨j, mem_filter.mpr ⟨hj, isOther_of_claim? hc hk⟩, rfl⟩)
  · rintro j hj rfl
    rw [ownMatches, Keyed.get?_key hj] at h
    exact ofCollection_eq_true h

variable {rest : List Key}

theorem Underway.of_revoke {k : Key}
    (h : Underway t ⟨own, collection, k :: rest⟩) (hjob : job ∈ t) (hk : job.key = k)
    (r : Reading fromisoformat) (p : Job → Bool) :
    Underway ((t.insert (stamped r (revoke.apply job))).filter p) ⟨own, collection, rest⟩ := by
  have hkey : (stamped r (revoke.apply job)).key = k := (revoke.key_apply job).trans hk
  constructor
  · intro j hj hc
    rcases Keyed.mem_insert.mp (Keyed.mem_filter.mp hj).1 with rfl | ⟨hj, hne⟩
    · rw [claim?_stamped, claim?_revoke] at hc
      cases hc
    · rcases h.others j hj hc with ho | hoth
      · exact Or.inl ho
      · refine Or.inr ((mem_cons.mp hoth).resolve_left fun hjk => hne ?_)
        rw [hkey, hjk]
  · intro j hj ho
    rcases Keyed.mem_insert.mp (Keyed.mem_filter.mp hj).1 with rfl | ⟨hj, -⟩
    · rw [hkey] at ho
      exact (collection_revoke job).trans (h.own job hjob (hk.trans ho))
    · exact h.own j hj ho

theorem Underway.of_unknown {k : Key}
    (h : Underway t ⟨own, collection, k :: rest⟩) (hk : t.get? k = none) :
    Underway t ⟨own, collection, rest⟩ := by
  refine ⟨fun j hj hc => ?_, h.own⟩
  rcases h.others j hj hc with ho | hoth
  · exact Or.inl ho
  · refine Or.inr ((mem_cons.mp hoth).resolve_left ?_)
    exact Keyed.get?_eq_none_iff.mp hk j hj

/-- **The last write of a claim.** Once everyone else is revoked, the own claim is the only
one of the collection. -/
theorem uniqueClaims_claimEnd (ht : UniqueClaims t)
    (h : Underway t ⟨own, collection, []⟩) {job' : Job} (hjob : job ∈ t) (ho : job.key = own)
    (hk : job'.key = own) (hcoll : job'.collection = job.collection) :
    UniqueClaims (t.insert job') := by
  have hnm : ∀ c, claim? job' = some c → c = collection := by
    intro c hc
    have := (collection_of_claim? hc).symm.trans (hcoll.trans (h.own job hjob ho))
    exact Json.str.inj this
  have hold : ∀ j ∈ t, j.key ≠ job'.key → ∀ c, claim? job' = some c → claim? j ≠ some c := by
    intro j hj hne c hc hcj
    rw [hnm c hc] at hcj
    rcases h.others j hj hcj with hjown | hnil
    · exact hne (hjown.trans hk.symm)
    · cases hnil
  intro j₁ hj₁ j₂ hj₂ c hc₁ hc₂
  rcases Keyed.mem_insert.mp hj₁ with h₁ | ⟨h₁, hne₁⟩
  · rcases Keyed.mem_insert.mp hj₂ with h₂ | ⟨h₂, hne₂⟩
    · rw [h₁, h₂]
    · exact absurd hc₂ (hold j₂ h₂ hne₂ c (h₁ ▸ hc₁))
  · rcases Keyed.mem_insert.mp hj₂ with h₂ | ⟨h₂, -⟩
    · exact absurd hc₁ (hold j₁ h₁ hne₁ c (h₂ ▸ hc₂))
    · exact ht j₁ h₁ j₂ h₂ c hc₁ hc₂

/-! ### Runs -/

variable {r : Reading fromisoformat}

/-- The next import is revoked: it is gone, or it is off the list; a write that raises ends
the claim. -/
theorem inv_revokeNext {s s' : State} (h : Inv s)
    (hs : step s (.revokeNext r now outcome) = some s') :
    Inv s' := by
  simp only [step] at hs
  split at hs
  · rename_i own collection k rest hclaim
    have hund := h.underway _ hclaim
    have hok := h.store.update r now outcome k fun j c hc => by
      rw [claim?_revoke] at hc
      cases hc
    rcases update_cases r now outcome k revoke s.store with
      ⟨hn, heq⟩ | ⟨job, hm, hk, store, raised, hw, heq⟩
    · rw [heq] at hs
      cases hs
      refine ⟨h.store, fun c hc => ?_⟩
      cases hc
      exact hund.of_unknown hn
    · rw [heq] at hs hok
      cases raised with
      | true =>
        cases hs
        exact ⟨hok, by rintro c ⟨⟩⟩
      | false =>
        cases hs
        refine ⟨hok, fun c hc => ?_⟩
        cases hc
        obtain ⟨p, hp, -⟩ := jobs_writeAtomic hw
        rw [hp]
        exact hund.of_revoke hm hk r p
  · cases hs

/-- The claim itself: nobody else has one, since the list is empty. -/
theorem inv_claimEnd {s s' : State} {processed total skip : ℤ} (h : Inv s)
    (hs : step s (.claimEnd r now outcome processed total skip) = some s') : Inv s' := by
  simp only [step] at hs
  split at hs
  · rename_i own collection hclaim
    have hund := h.underway _ hclaim
    cases hs
    refine ⟨?_, by rintro c ⟨⟩⟩
    rcases update_cases r now outcome own (claimUpdate processed total skip) s.store with
      ⟨-, heq⟩ | ⟨job, hm, hk, store, raised, hw, heq⟩
    · rw [heq]
      exact h.store
    · rw [heq]
      have hjs : UniqueClaims (s.store.jobs.insert
          (stamped r ((claimUpdate processed total skip).apply job))) :=
        uniqueClaims_claimEnd h.store.jobs hund hm hk
          (((claimUpdate processed total skip).key_apply job).trans hk)
          (collection_claimUpdate processed total skip job)
      exact StoreOk.writeAtomic (s := ⟨_, s.store.file⟩) ⟨hjs, h.store.file⟩ hw
  · cases hs

theorem inv_step {s s' : State} {e : Event fromisoformat} (h : Inv s) (hs : step s e = some s') :
    Inv s' := by
  cases e with
  | create a job =>
    obtain ⟨hguard, rfl⟩ := of_guard hs
    refine ⟨h.store.createJob a hguard.2, fun c hc => ?_⟩
    simp [isNone_iff_eq_none.mp hguard.1] at hc
  | update r now outcome jobId fields =>
    obtain ⟨hguard, rfl⟩ := of_guard hs
    refine ⟨h.store.update r now outcome jobId fun j c hc => ?_, fun c hc => ?_⟩
    · rwa [fields.claim?_apply] at hc
    · simp [isNone_iff_eq_none.mp hguard] at hc
  | transition a jobId fromStatuses toStatus fields =>
    obtain ⟨hguard, rfl⟩ := of_guard hs
    refine ⟨h.store.transition a jobId fromStatuses toStatus fields, fun c hc => ?_⟩
    simp [isNone_iff_eq_none.mp hguard] at hc
  | cancelIngestRetries a collection =>
    obtain ⟨hguard, rfl⟩ := of_guard hs
    refine ⟨h.store.cancelIngestRetries a collection, fun c hc => ?_⟩
    simp [isNone_iff_eq_none.mp hguard] at hc
  | claimStart own collection =>
    obtain ⟨hguard, rfl⟩ := of_guard hs
    refine ⟨h.store, fun c hc => ?_⟩
    cases hc
    exact underway_claimStart hguard.2
  | revokeNext r now outcome => exact inv_revokeNext h hs
  | claimEnd r now outcome processed total skip => exact inv_claimEnd h hs
  | restart readings now₁ now₂ outcome =>
    cases hs
    exact ⟨storeOk_reopen h.store.file readings now₁ now₂ outcome, fun c hc => nomatch hc⟩

theorem inv_init : Inv State.init :=
  ⟨⟨fun j hj => absurd hj (Keyed.notMem_empty j), Or.inl rfl⟩, fun _ hc => nomatch hc⟩

/-- **At most one import per collection has a claim.** After every run of a server, in
whatever order jobs are created, changed and claim collections, with writes that fail and
with restarts between any two writes, no two jobs of one collection have
`collection_claimed` without `collection_claim_revoked`, neither in memory nor in the jobs
file. -/
theorem uniqueClaims_of_run (events : List (Event fromisoformat)) (s : State)
    (hrun : run step State.init events = some s) :
    UniqueClaims s.store.jobs ∧ ∀ t, decodeTable s.store.file = some t → UniqueClaims t := by
  have hinv : Inv s :=
    run_invariant (I := Inv) (fun s e s' hs hst => inv_step hs hst) inv_init hrun
  exact ⟨hinv.store.jobs, fun t ht => hinv.store.file.uniqueClaims ht⟩

/-! ### Two imports of one collection -/

/-- An import of the collection `docs`. -/
def sampleImport (id : String) : Job :=
  { sampleJob id .running (.importJob {}) with collection := .str "docs" }

def sampleWritten : Attempt sampleFromisoformat := { sampleAttempt with outcome₁ := .written }

/-- A first import claims `docs`. A second one revokes that claim, and the process dies
before its own claim is recorded; it claims `docs` after the restart. -/
def sampleEvents : List (Event sampleFromisoformat) :=
  let now := sampleReading.instant
  [.create sampleWritten (sampleImport "a"), .create sampleWritten (sampleImport "b"),
    .claimStart (.str "a") "docs", .revokeNext sampleReading now .written,
    .claimEnd sampleReading now .written 0 3 0,
    .claimStart (.str "b") "docs", .revokeNext sampleReading now .written,
    .restart (fun _ => sampleReading) now now .written,
    .claimStart (.str "b") "docs", .claimEnd sampleReading now .written 0 3 0]

theorem uniqueClaims_of_run_twoImports :
    ∃ s, run step State.init sampleEvents = some s ∧
      s.store.jobs.items.map claim? = [none, some "docs"] ∧ UniqueClaims s.store.jobs ∧
      ∀ t, decodeTable s.store.file = some t → UniqueClaims t :=
  ⟨_, rfl, rfl, uniqueClaims_of_run sampleEvents _ rfl⟩

end ArchonSearch.Jobs.Claim
