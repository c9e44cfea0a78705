import Mathlib.Data.Fintype.Defs
import ArchonSearch.Import.Provenance

/-!
# Two imports of one collection

`_ensure_collection_absent` looks whether the collection exists, `_claim_collection` revokes the
claims of the other imports, and then documents are stored: calls with nothing that holds them
together. A run reads its own revocation again only in the ownership check of a resume, so two
imports that both count no chunks both go on, and both append (`two_imports_append`).

What the code does guarantee is that the rows of the first one are seen: when no run passes its
check in the time between the check of another one and its first row, one run at most is past its
check, and a claim that is not revoked is one of every row (`Inv`). A finished import is then alone
in its collection until another one drops or claims it: `isolated_of_alone`.
-/

namespace ArchonSearch.Import.Isolation

open Lib Jobs Function List Option

variable {J δ β : Type*}

/-! ### The claim of a collection, and its gap -/

/-- The run is past its check of the collection: it found it absent, decided to drop it, or
found it its own. -/
def past : Task J δ β → Bool
  | .starting | .validating _ | .checkingAccess _ | .locking _ | .readingMeta _ | .counting _
  | .checkingOwner _ _ | .failing _ => false
  | _ => true

def IsPast (s : State J δ β) (i : J) : Prop := ∃ t, s.tasks i = some t ∧ past t = true

def HasRow (s : State J δ β) (i : J) : Prop := ∃ row ∈ s.rows, row.writer = some i

/-- Whether the check of the run is answered so that it goes on: `count_chunks` counts
nothing, or the first document of the archive is stored by a claim that is not revoked. -/
def passes (s : State J δ β) (j : J) : Task J δ β → Prop
  | .counting _ => s.rows = []
  | .checkingOwner _ c =>
    (s.mem j).collectionClaimRevoked = false ∧
      ∃ row ∈ s.rows, row.chunk.chunkId = c.chunkId ∧ row.chunk.indexedAt = c.indexedAt
  | _ => False

/-- No run passes its check while another one is past it and has no row. -/
def Alone (s : State J δ β) : Event J → Prop
  | .task j .returns => ∀ t, s.tasks j = some t → passes s j t →
    ∀ k, k ≠ j → IsPast s k → HasRow s k
  | _ => True

section Decidable

variable [DecidableEq J]

instance (s : State J δ β) (i : J) : Decidable (IsPast s i) :=
  inferInstanceAs (Decidable (∃ t ∈ s.tasks i, past t = true))

instance (s : State J δ β) (i : J) : Decidable (HasRow s i) :=
  inferInstanceAs (Decidable (∃ row ∈ s.rows, row.writer = some i))

instance (s : State J δ β) (j : J) (t : Task J δ β) : Decidable (passes s j t) := by
  unfold passes
  split <;> infer_instance

instance [Fintype J] (s : State J δ β) (e : Event J) : Decidable (Alone s e) := by
  unfold Alone
  split <;> infer_instance

end Decidable

def Own (rows : List (Stored J β)) (i : J) : Prop := ∀ row ∈ rows, row.writer = some i

/-- All rows are valid documents of this import, written by it. -/
def FromArchive (S : Setup J δ β) (s : State J δ β) (j : J) : Prop :=
  ∀ row ∈ s.rows, row.writer = some j ∧ row.chunk ∈ S.valid j

/-- The collection is the one the job imported, unless another import has dropped or claimed
it since. -/
def Isolated (S : Setup J δ β) (s : State J δ β) (j : J) : Prop :=
  s.disturbed j = true ∨ FromArchive S s j

/-- The jobs have been created and none has run; what is in the collection is not theirs. -/
structure Init (s : State J δ β) : Prop where
  mem : ∀ i, s.mem i = {}
  file : ∀ i, s.file i = {}
  tasks : ∀ i, s.tasks i = none
  rows : ∀ row ∈ s.rows, row.writer = none

/-! ### Two imports that find the collection absent -/

/-- Both imports count no chunks; both claim the collection; both store their documents. -/
def raceEvents : List (Event Bool) :=
  let returns : Bool → Event Bool := fun j => .task j .returns
  let writes : Bool → Event Bool := fun j => .task j (.writes .written)
  let validate : Bool → List (Event Bool) := fun j =>
    [.dispatch j .written .written, writes j, writes j, returns j, returns j]
  let claim : Bool → List (Event Bool) := fun j => [returns j, writes j, writes j]
  validate false ++ validate true ++ claim false ++ claim true ++
    [returns true, returns true, returns true] ++
    [returns false, returns false, returns false, writes false, returns false, returns false,
      returns false, writes false, returns false, returns false, writes false, returns false,
      writes false]

/-- The first import is `DONE`, nobody has touched the collection since its last rows, and
the collection has the row of the other one, which is not of its archive. -/
theorem two_imports_append :
    ∃ s, run sampleSetup.step sampleState raceEvents = some s ∧
      (s.mem false).status = .done ∧ s.disturbed false = false ∧
      s.rows.map (fun row => (row.writer, row.chunk.chunkId)) =
        [(some true, "b1"), (some false, "a1"), (some false, "a2")] ∧
      (∃ row ∈ s.rows, row.chunk ∉ sampleSetup.valid false) ∧ ¬Isolated sampleSetup s false := by
  refine ⟨_, rfl, rfl, rfl, rfl, ?_, ?_⟩
  · refine ⟨_, mem_cons_self, fun h => ?_⟩
    have hid : "b1" ∈ (sampleSetup.valid false).map Chunk.chunkId :=
      List.mem_map.mpr ⟨_, h, rfl⟩
    exact absurd hid (by decide)
  · rintro (h | h)
    · cases h
    · exact absurd (h _ mem_cons_self).1 (by decide)

/-! ### Rows of one job -/

theorem own_nil (i : J) : Own ([] : List (Stored J β)) i := fun _ hr => nomatch hr

theorem own_append {rows : List (Stored J β)} {i : J} (h : Own rows i)
    (chunks : List (Chunk β)) : Own (rows ++ chunks.map fun c => ⟨some i, c⟩) i := by
  intro row hr
  rcases mem_append.mp hr with hr | hr
  · exact h row hr
  · obtain ⟨c, -, rfl⟩ := List.mem_map.mp hr
    rfl

/-! ### The invariant -/

def Active (job : ImportJob) : Prop := job.status = .running ∨ job.status = .cancelling

structure RecordOk (rows : List (Stored J β)) (disturbed : Bool) (i : J) (job : ImportJob) :
    Prop where
  resumed : 0 < job.processed → job.collectionClaimed = true
  own : job.collectionClaimed = true → job.collectionClaimRevoked = false → Own rows i
  done : job.status = .done → disturbed = true ∨ Own rows i

structure Holds (mem file : J → ImportJob) (rows : List (Stored J β)) (disturbed : J → Bool)
    (i : J) : Prop where
  claimed : (mem i).collectionClaimed = true
  own : Own rows i
  others : ∀ k, k ≠ i → (mem k).collectionClaimRevoked = true ∧
    (file k).collectionClaimRevoked = true ∧ disturbed k = true

def TaskOk (mem file : J → ImportJob) (rows : List (Stored J β)) (disturbed : J → Bool) (i : J) :
    Task J δ β → Prop
  | .failing _ => True
  | .starting | .checkingAccess _ | .locking _ | .readingMeta _ | .counting _ | .dropping _ =>
    Active (mem i)
  | .validating r =>
    Active (mem i) ∧ (r.isResume = true → (mem i).collectionClaimed = true) ∧
      (r.isResume = false → r.processed = 0)
  | .checkingOwner _ _ => Active (mem i) ∧ (mem i).collectionClaimed = true
  | .deletingMeta => Active (mem i) ∧ rows = []
  | .claiming _ _ others =>
    Active (mem i) ∧ Own rows i ∧ ∀ k, k ≠ i → k ∈ others ∨ (mem k).collectionClaimRevoked = true
  | .ensuring _ _ | .reading _ | .probing _ _ | .storing _ _ _ _ | .checkpointing _
  | .checkingCancel _ | .recording _ | .indexing _ | .finishing _ =>
    Active (mem i) ∧ Holds mem file rows disturbed i

def RunOk (s : State J δ β) (i : J) (t : Task J δ β) : Prop :=
  TaskOk s.mem s.file s.rows s.disturbed i t

structure Inv (s : State J δ β) : Prop where
  records : ∀ i, RecordOk s.rows (s.disturbed i) i (s.mem i) ∧
    RecordOk s.rows (s.disturbed i) i (s.file i)
  tasks : ∀ i t, s.tasks i = some t → RunOk s i t
  unique : ∀ i k, IsPast s i → IsPast s k → i = k

structure Rest (j : J) (s : State J δ β) : Prop where
  records : ∀ i, RecordOk s.rows (s.disturbed i) i (s.mem i) ∧
    RecordOk s.rows (s.disturbed i) i (s.file i)
  tasks : ∀ i t, i ≠ j → s.tasks i = some t → RunOk s i t
  unique : ∀ i k, i ≠ j → k ≠ j → IsPast s i → IsPast s k → i = k

theorem Inv.rest {s : State J δ β} (h : Inv s) (j : J) : Rest j s :=
  ⟨h.records, fun i t _ => h.tasks i t, fun i k _ _ => h.unique i k⟩

variable {t : Task J δ β}

/-- Nobody else is past its check while one run is. -/
theorem Inv.alone {s : State J δ β} (h : Inv s) {j : J} (ht : s.tasks j = some t)
    (hp : past t = true) : ∀ i, i ≠ j → ¬IsPast s i :=
  fun i hij hi => hij (h.unique i j hi ⟨t, ht, hp⟩)

/-- A run that is past its check belongs to a job that may write. -/
theorem Inv.active_of_isPast {s : State J δ β} (h : Inv s) {i : J} (hi : IsPast s i) :
    Active (s.mem i) := by
  obtain ⟨t, ht, hp⟩ := hi
  have hr := h.tasks i t ht
  cases t with
  | dropping _ => exact hr
  | deletingMeta | claiming _ _ _ | ensuring _ _ | reading _ | probing _ _ | storing _ _ _ _
  | checkpointing _ | checkingCancel _ | recording _ | indexing _ | finishing _ => exact hr.1
  | _ => cases hp

structure Keeps (s s' : State J δ β) (i : J) : Prop where
  claimed : (s.mem i).collectionClaimed = true → (s'.mem i).collectionClaimed = true
  active : Active (s.mem i) → Active (s'.mem i)
  rows : IsPast s i → s'.rows = s.rows
  others : IsPast s i → ∀ k, k ≠ i → (s.mem k).collectionClaimRevoked = true →
    (s'.mem k).collectionClaimRevoked = true ∧
      ((s.file k).collectionClaimRevoked = true → (s'.file k).collectionClaimRevoked = true) ∧
      (s.disturbed k = true → s'.disturbed k = true)

theorem Holds.keep {s s' : State J δ β} {i : J} (h : Holds s.mem s.file s.rows s.disturbed i)
    (hp : IsPast s i) (hkp : Keeps s s' i) : Holds s'.mem s'.file s'.rows s'.disturbed i := by
  refine ⟨hkp.claimed h.claimed, ?_, fun k hk => ?_⟩
  · rw [hkp.rows hp]
    exact h.own
  · obtain ⟨hm, hf, hdis⟩ := h.others k hk
    obtain ⟨hm', hf', hdis'⟩ := hkp.others hp k hk hm
    exact ⟨hm', hf' hf, hdis' hdis⟩

/-- A run is not affected by a step that keeps what it relies on. -/
theorem RunOk.keep {s s' : State J δ β} {i : J} (h : RunOk s i t)
    (ht : s.tasks i = some t) (hkp : Keeps s s' i) : RunOk s' i t := by
  cases t with
  | failing e => trivial
  | starting | checkingAccess _ | locking _ | readingMeta _ | counting _ | dropping _ =>
    exact hkp.active h
  | validating r => exact ⟨hkp.active h.1, fun hr => hkp.claimed (h.2.1 hr), h.2.2⟩
  | checkingOwner r c => exact ⟨hkp.active h.1, hkp.claimed h.2⟩
  | deletingMeta => exact ⟨hkp.active h.1, (hkp.rows ⟨_, ht, rfl⟩).trans h.2⟩
  | claiming r dim others =>
    have hp : IsPast s i := ⟨_, ht, rfl⟩
    refine ⟨hkp.active h.1, ?_, fun k hk => ?_⟩
    · rw [hkp.rows hp]
      exact h.2.1
    · rcases h.2.2 k hk with hm | hrev
      · exact Or.inl hm
      · exact Or.inr (hkp.others hp k hk hrev).1
  | ensuring _ _ | reading _ | probing _ _ | storing _ _ _ _ | checkpointing _
  | checkingCancel _ | recording _ | indexing _ | finishing _ =>
    exact ⟨hkp.active h.1, h.2.keep ⟨_, ht, rfl⟩ hkp⟩

def afterClaim : Task J δ β → Bool
  | .ensuring _ _ | .reading _ | .probing _ _ | .storing _ _ _ _ | .checkpointing _
  | .checkingCancel _ | .recording _ | .indexing _ | .finishing _ => true
  | _ => false

theorem runOk_of_holds {s : State J δ β} {j : J} (ht : afterClaim t = true)
    (hact : Active (s.mem j)) (hho : Holds s.mem s.file s.rows s.disturbed j) :
    RunOk s j t := by
  cases t with
  | ensuring _ _ | reading _ | probing _ _ | storing _ _ _ _ | checkpointing _
  | checkingCancel _ | recording _ | indexing _ | finishing _ => exact ⟨hact, hho⟩
  | _ => cases ht

/-- Runs that a step leaves where they are, and whose support it keeps, go through it. -/
theorem runs_of_keeps {s s' : State J δ β} {P : J → Prop}
    (htas : ∀ i, P i → s'.tasks i = s.tasks i) (hkp : ∀ i, P i → Keeps s s' i)
    (hruns : ∀ i t, P i → s.tasks i = some t → RunOk s i t)
    (huniq : ∀ i k, P i → P k → IsPast s i → IsPast s k → i = k) :
    (∀ i t, P i → s'.tasks i = some t → RunOk s' i t) ∧
      ∀ i k, P i → P k → IsPast s' i → IsPast s' k → i = k := by
  have hp : ∀ i, P i → IsPast s' i → IsPast s i := by
    rintro i hi ⟨t, ht, hp⟩
    exact ⟨t, (htas i hi).symm.trans ht, hp⟩
  constructor
  · intro i t hi ht
    have ht' : s.tasks i = some t := (htas i hi).symm.trans ht
    exact (hruns i t hi ht').keep ht' (hkp i hi)
  · intro i k hi hk hpi hpk
    exact huniq i k hi hk (hp i hi hpi) (hp k hk hpk)

/-- Nothing is lost by a step that keeps what the other runs rely on. -/
theorem Rest.of_keeps {s s' : State J δ β} {j : J} (h : Rest j s)
    (hrecs : ∀ i, RecordOk s'.rows (s'.disturbed i) i (s'.mem i) ∧
      RecordOk s'.rows (s'.disturbed i) i (s'.file i))
    (htas : ∀ i, i ≠ j → s'.tasks i = s.tasks i) (hkp : ∀ i, i ≠ j → Keeps s s' i) :
    Rest j s' := by
  obtain ⟨hruns, huniq⟩ := runs_of_keeps htas hkp h.tasks h.unique
  exact ⟨hrecs, hruns, huniq⟩

theorem Inv.of_keeps {s s' : State J δ β} (h : Inv s)
    (hrecs : ∀ i, RecordOk s'.rows (s'.disturbed i) i (s'.mem i) ∧
      RecordOk s'.rows (s'.disturbed i) i (s'.file i))
    (htas : ∀ i, s'.tasks i = s.tasks i) (hkp : ∀ i, Keeps s s' i) : Inv s' := by
  obtain ⟨hruns, huniq⟩ := runs_of_keeps (P := fun _ => True) (fun i _ => htas i)
    (fun i _ => hkp i) (fun i t _ => h.tasks i t) fun i k _ _ => h.unique i k
  exact ⟨hrecs, fun i t => hruns i t trivial, fun i k => huniq i k trivial trivial⟩

/-! ### Stored jobs -/

section Record

variable {rows : List (Stored J β)} {disturbed : Bool} {i : J} {job : ImportJob}

theorem RecordOk.reported (h : RecordOk rows disturbed i job) {p : Progress}
    (hp : 0 < p.processed → job.collectionClaimed = true) :
    RecordOk rows disturbed i (job.reported p) := ⟨hp, h.own, h.done⟩

theorem RecordOk.checkpointed (h : RecordOk rows disturbed i job) (p : Progress) (n : ℕ)
    (hclm : job.collectionClaimed = true) :
    RecordOk rows disturbed i (job.checkpointed p n) := ⟨fun _ => hclm, h.own, h.done⟩

theorem RecordOk.claimed (h : RecordOk rows disturbed i job) (p : Progress) (n : ℕ)
    (ho : Own rows i) : RecordOk rows disturbed i (job.claimed p n) :=
  ⟨fun _ => rfl, fun _ _ => ho, h.done⟩

theorem RecordOk.setStatus (h : RecordOk rows disturbed i job) {status : JobStatus}
    (hstat : status ≠ .done) (error : Option String) :
    RecordOk rows disturbed i { job with status := status, error := error } :=
  ⟨h.resumed, h.own, fun hd => absurd hd hstat⟩

theorem RecordOk.recovered (h : RecordOk rows disturbed i job) :
    RecordOk rows disturbed i job.recovered := by
  unfold ImportJob.recovered
  split_ifs
  · exact h.setStatus (by decide) _
  · exact h

/-- A resume is one of a job that has claimed the collection. -/
theorem RecordOk.claimed_of_isResume (h : RecordOk rows disturbed i job)
    (hres : (resumePoint job).isResume = true) : job.collectionClaimed = true := by
  unfold resumePoint at hres
  split_ifs at hres with hr
  · exact hr.elim (fun hc => hc) h.resumed
  · cases hres

theorem processed_of_not_isResume (hfr : (resumePoint job).isResume = false) :
    (resumePoint job).processed = 0 := by
  unfold resumePoint at hfr ⊢
  split_ifs at hfr ⊢
  rfl

/-- A job stays what it is when the collection is dropped. -/
theorem RecordOk.drop (h : RecordOk rows disturbed i job) (disturbed' : Bool) :
    RecordOk ([] : List (Stored J β)) disturbed' i job :=
  ⟨h.resumed, fun _ _ => own_nil i, fun _ => Or.inr (own_nil i)⟩

theorem RecordOk.disturb (h : RecordOk rows disturbed i job) : RecordOk rows true i job :=
  ⟨h.resumed, h.own, fun _ => Or.inl rfl⟩

theorem recordOk_default (rows : List (Stored J β)) (disturbed : Bool) (i : J) :
    RecordOk rows disturbed i {} :=
  ⟨fun h => absurd h (by decide), (fun h => nomatch h), (fun h => nomatch h)⟩

end Record

variable {s₀ : State J δ β}

theorem Init.inv (h : Init s₀) : Inv s₀ := by
  refine ⟨fun i => ?_, fun i t ht => ?_, ?_⟩
  · rw [h.mem i, h.file i]
    exact ⟨recordOk_default _ _ i, recordOk_default _ _ i⟩
  · rw [h.tasks i] at ht
    cases ht
  · rintro i k ⟨t, ht, -⟩
    rw [h.tasks i] at ht
    cases ht

theorem Init.provenance {S : Setup J δ β} (h : Init s₀) :
    Provenance.Inv S s₀ := by
  refine ⟨fun row hr i hi => ?_, fun i t ht => ?_⟩
  · rw [h.rows row hr] at hi
    cases hi
  · rw [h.tasks i] at ht
    cases ht

/-! ### The parts of a step -/

variable [DecidableEq J] {s : State J δ β} {j : J}

theorem isPast_goto {i : J} (h : IsPast (s.goto j t) i) :
    i = j ∧ past t = true ∨ i ≠ j ∧ IsPast s i := by
  obtain ⟨t', ht', hp⟩ := h
  by_cases hi : i = j
  · subst hi
    obtain rfl : t = t' := by simpa [State.goto] using ht'
    exact Or.inl ⟨rfl, hp⟩
  · refine Or.inr ⟨hi, t', ?_, hp⟩
    simpa [State.goto, update_of_ne hi] using ht'

theorem inv_goto (h : Rest j s) (ht : RunOk s j t)
    (hp : past t = true → ∀ i, i ≠ j → ¬IsPast s i) : Inv (s.goto j t) := by
  refine ⟨h.records, fun i t' ht' => ?_, fun i k hi hk => ?_⟩
  · by_cases hij : i = j
    · subst hij
      obtain rfl : t = t' := by simpa [State.goto] using ht'
      exact ht
    · exact h.tasks i t' hij (by simpa [State.goto, update_of_ne hij] using ht')
  · rcases isPast_goto hi with ⟨rfl, hpi⟩ | ⟨hij, hpi⟩
    · rcases isPast_goto hk with ⟨rfl, -⟩ | ⟨hkj, hpk⟩
      · rfl
      · exact absurd hpk (hp hpi k hkj)
    · rcases isPast_goto hk with ⟨rfl, hpk⟩ | ⟨hkj, hpk⟩
      · exact absurd hpi (hp hpk i hij)
      · exact h.unique i k hij hkj hpi hpk

theorem inv_goto_before (h : Rest j s) (ht : RunOk s j t)
    (hbef : past t = false) : Inv (s.goto j t) := by
  refine inv_goto h ht fun hp => ?_
  rw [hbef] at hp
  cases hp

theorem inv_fail (h : Rest j s) (error : String) : Inv (s.fail j error) :=
  inv_goto_before (s := s.release j) ⟨h.records, h.tasks, h.unique⟩ trivial rfl

theorem inv_end (h : Rest j s) : Inv { s with tasks := update s.tasks j none } := by
  have htas : ∀ i t, update s.tasks j none i = some t → i ≠ j ∧ s.tasks i = some t := by
    intro i t ht
    have hij : i ≠ j := by
      rintro rfl
      simp at ht
    exact ⟨hij, by simpa [update_of_ne hij] using ht⟩
  refine ⟨h.records, fun i t ht => ?_, ?_⟩
  · exact h.tasks i t (htas i t ht).1 (htas i t ht).2
  · rintro i k ⟨t, ht, hpi⟩ ⟨t', ht', hpk⟩
    exact h.unique i k (htas i t ht).1 (htas k t' ht').1 ⟨t, (htas i t ht).2, hpi⟩
      ⟨t', (htas k t' ht').2, hpk⟩

theorem mem_update (s : State J δ β) (k : J) (outcome : WriteOutcome)
    (fields : ImportJob → ImportJob) (i : J) :
    (s.update k outcome fields).mem i = if i = k then fields (s.mem k) else s.mem i :=
  update_apply s.mem k _ i

/-- The file has a job as it was, or as it is in memory. -/
theorem file_update (s : State J δ β) (k : J) (outcome : WriteOutcome)
    (fields : ImportJob → ImportJob) (i : J) :
    (s.update k outcome fields).file i = s.file i ∨
      (s.update k outcome fields).file i = (s.update k outcome fields).mem i := by
  rcases outcome.publish_eq_or s.file (update s.mem k (fields (s.mem k))) with hp | hp
  · exact Or.inl (congrFun hp i)
  · exact Or.inr (congrFun hp i)

variable {k : J}

theorem records_update (fields : ImportJob → ImportJob)
    (h : ∀ i, RecordOk s.rows (s.disturbed i) i (s.mem i) ∧
      RecordOk s.rows (s.disturbed i) i (s.file i))
    (hrec : RecordOk s.rows (s.disturbed k) k (fields (s.mem k))) (outcome : WriteOutcome)
    (i : J) : RecordOk s.rows (s.disturbed i) i ((s.update k outcome fields).mem i) ∧
      RecordOk s.rows (s.disturbed i) i ((s.update k outcome fields).file i) := by
  have hm : RecordOk s.rows (s.disturbed i) i ((s.update k outcome fields).mem i) := by
    rw [mem_update]
    split_ifs with hi
    · subst hi
      exact hrec
    · exact (h i).1
  refine ⟨hm, ?_⟩
  rcases file_update s k outcome fields i with hf | hf
  · rw [hf]
    exact (h i).2
  · rw [hf]
    exact hm

variable {fields : ImportJob → ImportJob}

/-- An update keeps what a run relies on, if it leaves the claim and the status of its own
job, and takes back no revocation once the run is past its check. -/
theorem keeps_update {i : J} (outcome : WriteOutcome)
    (hkeep : i = k → (fields (s.mem k)).collectionClaimed = (s.mem k).collectionClaimed ∧
      (Active (s.mem k) → Active (fields (s.mem k))))
    (hrevo : ¬IsPast s i ∨ ((s.mem k).collectionClaimRevoked = true →
      (fields (s.mem k)).collectionClaimRevoked = true)) :
    Keeps s (s.update k outcome fields) i := by
  refine ⟨?_, ?_, fun _ => rfl, fun hp k' _ hrev => ?_⟩
  · rw [mem_update]
    split_ifs with hi
    · subst hi
      rw [(hkeep rfl).1]
      exact fun hc => hc
    · exact fun hc => hc
  · rw [mem_update]
    split_ifs with hi
    · subst hi
      exact (hkeep rfl).2
    · exact fun hc => hc
  · have hrev' : ((s.update k outcome fields).mem k').collectionClaimRevoked = true := by
      rw [mem_update]
      split_ifs with hkk
      · subst hkk
        exact hrevo.resolve_left (fun hnot => hnot hp) hrev
      · exact hrev
    refine ⟨hrev', fun hf => ?_, fun hd => hd⟩
    rcases file_update s k outcome fields k' with hf' | hf'
    · rw [hf']
      exact hf
    · rw [hf']
      exact hrev'

/-- A write of the run of `j`. It may change the status and the claim of `j` only, and take
back a revocation only while nobody else is past its check. -/
theorem Rest.update (h : Rest j s) (outcome : WriteOutcome)
    (hrec : RecordOk s.rows (s.disturbed k) k (fields (s.mem k)))
    (hkeep : k ≠ j → (fields (s.mem k)).collectionClaimed = (s.mem k).collectionClaimed ∧
      (fields (s.mem k)).status = (s.mem k).status)
    (hrev : (∀ i, i ≠ j → ¬IsPast s i) ∨ ((s.mem k).collectionClaimRevoked = true →
      (fields (s.mem k)).collectionClaimRevoked = true)) :
    Rest j (s.update k outcome fields) := by
  have hrecs := records_update fields h.records hrec outcome
  refine h.of_keeps hrecs (fun i _ => rfl) fun i hij => ?_
  refine keeps_update outcome ?_ (hrev.imp_left fun hn => hn i hij)
  rintro rfl
  refine ⟨(hkeep hij).1, fun hact => ?_⟩
  rw [Active, (hkeep hij).2]
  exact hact

theorem Rest.drop (h : Rest j s) (hn : ∀ i, i ≠ j → ¬IsPast s i) :
    Rest j ({ s with table := none }.disturb j) := by
  refine h.of_keeps (fun i => ⟨(h.records i).1.drop _, (h.records i).2.drop _⟩) (fun i _ => rfl)
    fun i hij => ⟨fun hc => hc, fun ha => ha, ?_, ?_⟩
  · exact fun hp => absurd hp (hn i hij)
  · exact fun hp => absurd hp (hn i hij)

theorem Rest.disturb (h : Rest j s) : Rest j (s.disturb j) := by
  have hrecs : ∀ i job, RecordOk s.rows (s.disturbed i) i job →
      RecordOk s.rows ((s.disturb j).disturbed i) i job := by
    intro i job hj
    show RecordOk s.rows (if i = j then s.disturbed i else true) i job
    split_ifs
    · exact hj
    · exact hj.disturb
  refine h.of_keeps (fun i => ⟨hrecs i _ (h.records i).1, hrecs i _ (h.records i).2⟩)
    (fun i _ => rfl) fun i _ => ⟨fun hc => hc, fun ha => ha, fun _ => rfl, ?_⟩
  intro _ k _ hrev
  refine ⟨hrev, fun hf => hf, fun hd => ?_⟩
  show (if k = j then s.disturbed k else true) = true
  split_ifs
  · exact hd
  · rfl

/-- Rows are stored by a job that holds the collection. -/
theorem Rest.append (h : Rest j s) (hn : ∀ i, i ≠ j → ¬IsPast s i)
    (hho : Holds s.mem s.file s.rows s.disturbed j) (ns : String) (chunks : List (Chunk β)) :
    Rest j (s.append j ns chunks) ∧ Holds (s.append j ns chunks).mem (s.append j ns chunks).file
      (s.append j ns chunks).rows (s.append j ns chunks).disturbed j := by
  have ho : Own (s.append j ns chunks).rows j := own_append hho.own chunks
  have hdis : ∀ k, k ≠ j → (s.append j ns chunks).disturbed k = s.disturbed k :=
    fun k hk => update_of_ne hk _ _
  have hrec : ∀ i job, RecordOk s.rows (s.disturbed i) i job →
      (i ≠ j → job.collectionClaimRevoked = true) →
      RecordOk (s.append j ns chunks).rows ((s.append j ns chunks).disturbed i) i job := by
    intro i job hj hrev
    by_cases hij : i = j
    · subst hij
      exact ⟨hj.resumed, fun _ _ => ho, fun _ => Or.inr ho⟩
    · refine ⟨hj.resumed, fun _ hr => ?_, fun _ => Or.inl ?_⟩
      · rw [hrev hij] at hr
        cases hr
      · rw [hdis i hij]
        exact (hho.others i hij).2.2
  refine ⟨h.of_keeps (fun i => ⟨?_, ?_⟩) (fun i _ => rfl) fun i hij =>
    ⟨fun hc => hc, fun ha => ha, ?_, ?_⟩, hho.claimed, ho, fun k hk => ?_⟩
  · exact hrec i _ (h.records i).1 fun hij => (hho.others i hij).1
  · exact hrec i _ (h.records i).2 fun hij => (hho.others i hij).2.1
  · exact fun hp => absurd hp (hn i hij)
  · exact fun hp => absurd hp (hn i hij)
  · rw [hdis k hk]
    exact hho.others k hk

/-- A job that holds the collection writes its own record. -/
theorem Holds.update (h : Holds s.mem s.file s.rows s.disturbed j) (outcome : WriteOutcome)
    (hflds : (fields (s.mem j)).collectionClaimed = (s.mem j).collectionClaimed) :
    Holds (s.update j outcome fields).mem (s.update j outcome fields).file s.rows s.disturbed
      j := by
  refine ⟨?_, h.own, fun k hk => ?_⟩
  · rw [State.mem_update_self, hflds]
    exact h.claimed
  · have hm : (s.update j outcome fields).mem k = s.mem k := by
      rw [mem_update, if_neg hk]
    obtain ⟨hrev, hfl, hdis⟩ := h.others k hk
    refine ⟨by rw [hm]; exact hrev, ?_, hdis⟩
    rcases file_update s j outcome fields k with hf | hf
    · rw [hf]
      exact hfl
    · rw [hf, hm]
      exact hrev

theorem inv_goto_of_holds (h : Rest j s) (hn : ∀ i, i ≠ j → ¬IsPast s i)
    (ht : afterClaim t = true) (hact : Active (s.mem j))
    (hho : Holds s.mem s.file s.rows s.disturbed j) : Inv (s.goto j t) :=
  inv_goto h (runOk_of_holds ht hact hho) fun _ => hn

/-! ### The calls of a run -/

variable {S : Setup J δ β}

/-- Nobody else may write when no active job is found. -/
theorem not_active_of_findActive (h : S.findActive s j = none) (hk : k ≠ j) :
    ¬Active (s.mem k) := by
  intro hact
  have hm : k ∈ S.ids.filter fun k => k ≠ j && s.mayWrite k := by
    refine mem_filter.mpr ⟨S.mem_ids k, ?_⟩
    rcases hact with ha | ha <;> simp [State.mayWrite, hk, ha]
  have hhead : (S.ids.filter fun k => k ≠ j && s.mayWrite k).head? = none := by
    exact (or_eq_none_iff.mp h).2
  rw [head?_eq_none_iff.mp hhead] at hm
  cases hm

theorem inv_exists (h : Inv s) (hact : Active (s.mem j)) (g : Guard) (hasMeta : Bool) :
    Inv (S.exists? s j g hasMeta) := by
  unfold Setup.exists?
  split_ifs
  · split
    · exact inv_fail (h.rest j) _
    · rename_i hn
      refine inv_goto (h.rest j) hact fun _ i hij hp => ?_
      exact not_active_of_findActive hn hij (h.active_of_isPast hp)
  · exact inv_fail (h.rest j) _

/-- The jobs that are not revoked at the start of a claim are on its list. -/
theorem mem_others (hk : k ≠ j) :
    k ∈ S.others s j ∨ (s.mem k).collectionClaimRevoked = true := by
  cases hrev : (s.mem k).collectionClaimRevoked with
  | true => exact Or.inr rfl
  | false =>
    refine Or.inl (mem_filter.mpr ⟨S.mem_ids k, ?_⟩)
    simp [hk, hrev]

theorem inv_passed (h : Rest j s) (hact : Active (s.mem j)) (hrw : s.rows = [])
    (hn : ∀ i, i ≠ j → ¬IsPast s i) : Inv (S.passed s j) := by
  unfold Setup.passed
  split
  · exact inv_fail h _
  · refine inv_goto (s := s.release j) ⟨h.records, h.tasks, h.unique⟩
      ⟨hact, ?_, fun k hk => mem_others hk⟩ fun _ => hn
    show Own s.rows j
    rw [hrw]
    exact own_nil j

theorem read_cases (s : State J δ β) (j : J) (l : Loop δ β) :
    (∃ e, S.read s j l = s.fail j e) ∨ ∃ t, afterClaim t = true ∧ S.read s j l = s.goto j t := by
  have hstore : ∀ (l : Loop δ β) (last : Bool),
      ∃ t, afterClaim t = true ∧ s.store j l last = s.goto j t := by
    intro l last
    unfold State.store
    split_ifs
    · exact ⟨.probing l last, rfl, rfl⟩
    · exact ⟨.storing l l.batch false last, rfl, rfl⟩
  unfold Setup.read
  split
  · exact Or.inl ⟨_, rfl⟩
  · dsimp only
    split_ifs
    · exact Or.inr ⟨_, rfl, rfl⟩
    · exact Or.inr (hstore _ _)
  · dsimp only
    split
    · split_ifs
      · exact Or.inr (hstore _ _)
      · exact Or.inr ⟨_, rfl, rfl⟩
    · exact Or.inl ⟨_, rfl⟩
    · exact Or.inr ⟨_, rfl, rfl⟩
    · exact Or.inl ⟨_, rfl⟩

theorem inv_stored (h : Rest j s) (hn : ∀ i, i ≠ j → ¬IsPast s i) (hact : Active (s.mem j))
    (hho : Holds s.mem s.file s.rows s.disturbed j) (l : Loop δ β) (mayOverlap last : Bool) :
    Inv (s.stored j l mayOverlap last) := by
  unfold State.stored
  split_ifs
  · exact inv_goto_of_holds h hn rfl hact hho
  · exact inv_goto_of_holds h hn rfl hact hho

variable {s' : State J δ β}

theorem inv_returns (h : Inv s) (ht : s.tasks j = some t)
    (halone : passes s j t → ∀ k, k ≠ j → IsPast s k → HasRow s k)
    (hs : S.Returns s j t s') : Inv s' := by
  have hr : RunOk s j t := h.tasks j t ht
  have hrs := h.rest j
  cases hs with
  | refused e => exact inv_fail hrs e
  | available g =>
    split_ifs
    · exact inv_goto_before hrs hr rfl
    · exact inv_goto_before hrs hr rfl
  | locked g hl =>
    exact inv_goto_before (s := { s with lock := some j })
      ⟨hrs.records, hrs.tasks, hrs.unique⟩ hr rfl
  | hasMeta g => exact inv_exists h hr g true
  | noMeta g => exact inv_goto_before hrs hr rfl
  | absent g hrows =>
    refine inv_passed hrs hr hrows fun i hij hp => ?_
    -- a run that is past its check has a row, and there is none
    obtain ⟨row, hrw, -⟩ := halone hrows i hij hp
    rw [hrows] at hrw
    cases hrw
  | present g => exact inv_exists h hr g false
  | droppedTable =>
    have hn := h.alone ht rfl
    exact inv_goto (hrs.drop hn) ⟨hr, rfl⟩ fun _ => hn
  | dropped =>
    have hn := h.alone ht rfl
    exact inv_passed (hrs.drop hn) hr rfl hn
  | deletedMeta =>
    exact inv_passed (s := { s with owners := s.owners.erase (S.ns j) })
      ⟨hrs.records, hrs.tasks, hrs.unique⟩ hr.1 hr.2 (h.alone ht rfl)
  | owner r c hrev hrw =>
    have ho : Own s.rows j := (h.records j).1.own hr.2 hrev
    refine inv_goto hrs ⟨hr.1, ho, fun k hk => mem_others hk⟩ fun _ i hij hp => ?_
    -- a run that is past its check has a row, and all rows are of this job
    obtain ⟨row, hrw, hwr⟩ := halone ⟨hrev, hrw⟩ i hij hp
    exact hij (some.inj (hwr.symm.trans (ho row hrw)))
  | notOwner r c => exact inv_goto_before hrs hr.1 rfl
  | ensured r dim =>
    exact inv_goto_of_holds (s := { s with table := some s.rows })
      ⟨hrs.records, hrs.tasks, hrs.unique⟩ (h.alone ht rfl) rfl hr.1 hr.2
  | read l =>
    rcases read_cases (S := S) s j l with ⟨e, heq⟩ | ⟨t, haft, heq⟩
    · rw [heq]
      exact inv_fail hrs e
    · rw [heq]
      exact inv_goto_of_holds hrs (h.alone ht rfl) haft hr.1 hr.2
  | probed l last stored hsto =>
    exact inv_goto_of_holds hrs (h.alone ht rfl) rfl hr.1 hr.2
  | nothing l mayOverlap last =>
    exact inv_stored hrs (h.alone ht rfl) hr.1 hr.2 l mayOverlap last
  | appended l fresh mayOverlap last =>
    have hn := h.alone ht rfl
    obtain ⟨hrs', hho'⟩ := hrs.append hn hr.2 (S.ns j) fresh
    exact inv_stored hrs' hn hr.1 hho' l mayOverlap last
  | continued l => exact inv_goto_of_holds hrs (h.alone ht rfl) rfl hr.1 hr.2
  | indexed l owners =>
    exact inv_goto_of_holds (s := { s with owners := owners })
      ⟨hrs.records, hrs.tasks, hrs.unique⟩ (h.alone ht rfl) rfl hr.1 hr.2

/-! ### The writes of a run -/

variable {o : WriteOutcome} {next : Task J δ β}

theorem inv_updateThen
    (h : Rest j s) (hrec : RecordOk s.rows (s.disturbed j) j (fields (s.mem j)))
    (hrev : (fields (s.mem j)).collectionClaimRevoked = (s.mem j).collectionClaimRevoked)
    (hx : RunOk (s.update j o fields) j next) (hps : past next = false) :
    Inv (s.updateThen j j o fields next) := by
  have hupd : Rest j (s.update j o fields) :=
    h.update o hrec (fun hj => absurd rfl hj) (Or.inr fun hr => hrev.trans hr)
  unfold State.updateThen
  split_ifs
  · exact inv_fail hupd _
  · refine inv_goto hupd hx fun hp => ?_
    rw [hps] at hp
    cases hp

/-- A write of a run that keeps its claim and its status. -/
theorem inv_updateThen_of_holds (h : Rest j s) (hn : ∀ i, i ≠ j → ¬IsPast s i)
    (hact : Active (s.mem j)) (hho : Holds s.mem s.file s.rows s.disturbed j)
    (hx : afterClaim next = true)
    (hrec : RecordOk s.rows (s.disturbed j) j (fields (s.mem j)))
    (hclm : (fields (s.mem j)).collectionClaimed = (s.mem j).collectionClaimed)
    (hstat : (fields (s.mem j)).status = (s.mem j).status) :
    Inv (s.updateThen j j o fields next) := by
  have hupd : Rest j (s.update j o fields) :=
    h.update o hrec (fun hj => absurd rfl hj) (Or.inl hn)
  have hact' : Active ((s.update j o fields).mem j) := by
    rw [State.mem_update_self, Active, hstat]
    exact hact
  unfold State.updateThen
  split_ifs
  · exact inv_fail hupd _
  · exact inv_goto_of_holds hupd hn hx hact' (hho.update o hclm)

theorem inv_updateLast (h : Rest j s)
    (hn : ∀ i, i ≠ j → ¬IsPast s i)
    (hrec : RecordOk s.rows (s.disturbed j) j (fields (s.mem j))) :
    Inv (s.updateLast j o fields) := by
  have hupd : Rest j (s.update j o fields) :=
    h.update o hrec (fun hj => absurd rfl hj) (Or.inl hn)
  unfold State.updateLast
  split_ifs
  · exact inv_fail hupd _
  · exact inv_end hupd

theorem inv_revoke {rest : List J} (h : Rest j s) (hn : ∀ i, i ≠ j → ¬IsPast s i)
    (hact : Active (s.mem j)) (ho : Own s.rows j)
    (hoth : ∀ i, i ≠ j → i ∈ k :: rest ∨ (s.mem i).collectionClaimRevoked = true)
    (r : ResumePoint) (embeddingDim : Option ℕ) (o : WriteOutcome) :
    Inv (s.updateThen j k o (fun job => { job with collectionClaimRevoked := true })
      (.claiming r embeddingDim rest)) := by
  have hrec := (h.records k).1
  have hupd : Rest j (s.update k o fun job => { job with collectionClaimRevoked := true }) :=
    h.update o ⟨hrec.resumed, (by rintro _ ⟨⟩), hrec.done⟩ (fun _ => ⟨rfl, rfl⟩) (Or.inl hn)
  unfold State.updateThen
  split_ifs
  · exact inv_fail hupd _
  refine inv_goto hupd ⟨?_, ho, fun i hi => ?_⟩ fun _ => hn
  · rw [mem_update]
    split_ifs with hjk
    · rw [← hjk]
      exact hact
    · exact hact
  · rw [mem_update]
    split_ifs with hik
    · exact Or.inr rfl
    · exact (hoth i hi).imp_left fun hm => (mem_cons.mp hm).resolve_left hik

/-- A claim is recorded once everyone else is revoked in memory: the write that does not
raise has them all revoked in the file, too. -/
theorem holds_of_claimed (fields : ImportJob → ImportJob)
    (hrais : o.raises = false) (hclm : (fields (s.mem j)).collectionClaimed = true)
    (ho : Own s.rows j)
    (hoth : ∀ k, k ≠ j → (s.mem k).collectionClaimRevoked = true) :
    Holds (s.update j o fields).mem (s.update j o fields).file s.rows
      ((s.update j o fields).disturb j).disturbed j := by
  have hf : (s.update j o fields).file = (s.update j o fields).mem :=
    WriteOutcome.publish_of_not_raises hrais _ _
  refine ⟨?_, ho, fun k hk => ?_⟩
  · rw [State.mem_update_self]
    exact hclm
  · have hrev : ((s.update j o fields).mem k).collectionClaimRevoked = true := by
      rw [mem_update, if_neg hk]
      exact hoth k hk
    rw [hf]
    exact ⟨hrev, hrev, if_neg hk⟩

theorem inv_claim {others : List J} (h : Rest j s) (hn : ∀ i, i ≠ j → ¬IsPast s i)
    (hact : Active (s.mem j)) (ho : Own s.rows j)
    (hoth : ∀ k, k ≠ j → k ∈ others ∨ (s.mem k).collectionClaimRevoked = true)
    (r : ResumePoint) (embeddingDim : Option ℕ) (o : WriteOutcome) :
    Inv (S.claim s j r embeddingDim others o) := by
  unfold Setup.claim
  split
  · exact inv_revoke h hn hact ho hoth r embeddingDim o
  let fields : ImportJob → ImportJob := fun job =>
    job.claimed ⟨r.processed, (S.archive j).docCount, .validating⟩ r.skip
  have hupd : Rest j ((s.update j o fields).disturb j) :=
    (h.update o ((h.records j).1.claimed _ _ ho) (fun hj => absurd rfl hj) (Or.inl hn)).disturb
  split_ifs with hrais
  · exact inv_fail hupd _
  · have hact' : Active (((s.update j o fields).disturb j).mem j) := by
      show Active ((s.update j o fields).mem j)
      rw [State.mem_update_self]
      exact hact
    have hho := holds_of_claimed fields (Bool.of_not_eq_true hrais) rfl ho
      fun k hk => (hoth k hk).resolve_left not_mem_nil
    split
    · exact inv_goto_of_holds hupd hn rfl hact' hho
    · exact inv_goto_of_holds hupd hn rfl hact' hho

/-- The manifest has been reported: the check of the collection is next. -/
theorem inv_validated (h : Rest j s) (hact : Active (s.mem j)) {r : ResumePoint}
    (hclm : r.isResume = true → (s.mem j).collectionClaimed = true) :
    Inv (S.validated s j r) := by
  unfold Setup.validated
  split_ifs with hres
  · split
    · exact inv_fail h _
    · exact inv_goto_before h hact rfl
    · exact inv_goto_before h ⟨hact, hclm hres⟩ rfl
  · exact inv_goto_before h hact rfl

theorem inv_writes (h : Inv s)
    (ht : s.tasks j = some t) (hs : S.taskStep s j t (.writes o) = some s') : Inv s' := by
  have hrun : RunOk s j t := h.tasks j t ht
  have hrs := h.rest j
  have hrec := (h.records j).1
  cases t with
  | starting =>
    cases hs
    have hproc : 0 < (resumePoint (s.mem j)).processed →
        (s.mem j).collectionClaimed = true := by
      rw [processed_resumePoint]
      exact hrec.resumed
    refine inv_updateThen hrs (hrec.reported hproc) rfl ⟨?_, ?_, ?_⟩ rfl
    · rw [State.mem_update_self]
      exact hrun
    · rw [State.mem_update_self]
      exact hrec.claimed_of_isResume
    · exact processed_of_not_isResume
  | validating r =>
    cases hs
    obtain ⟨hact, hclm, hfr⟩ := hrun
    have hproc : 0 < r.processed → (s.mem j).collectionClaimed = true := by
      intro hpos
      refine hclm (Bool.of_not_eq_false fun hr => ?_)
      rw [hfr hr] at hpos
      cases hpos
    let fields : ImportJob → ImportJob := fun job =>
      job.reported ⟨r.processed, (S.archive j).docCount, .validating⟩
    have hupd : Rest j (s.update j o fields) :=
      hrs.update o (hrec.reported hproc) (fun hj => absurd rfl hj) (Or.inr fun hr => hr)
    have hm := State.mem_update_self s j o fields
    split_ifs
    · exact inv_fail hupd _
    · refine inv_validated hupd ?_ ?_
      · rw [hm]
        exact hact
      · rw [hm]
        exact hclm
  | claiming r dim others =>
    cases hs
    exact inv_claim hrs (h.alone ht rfl) hrun.1 hrun.2.1 hrun.2.2 r dim o
  | checkpointing l =>
    cases hs
    exact inv_updateThen_of_holds hrs (h.alone ht rfl) hrun.1 hrun.2 rfl
      (hrec.checkpointed _ _ hrun.2.claimed) rfl rfl
  | checkingCancel l =>
    obtain ⟨-, rfl⟩ := of_guard hs
    exact inv_updateLast hrs (h.alone ht rfl) (hrec.setStatus (by decide) _)
  | recording l =>
    cases hs
    exact inv_updateThen_of_holds hrs (h.alone ht rfl) hrun.1 hrun.2 rfl
      (hrec.checkpointed _ _ hrun.2.claimed) rfl rfl
  | finishing l =>
    simp only [Setup.taskStep] at hs
    split_ifs at hs
    · cases hs
      exact inv_updateLast hrs (h.alone ht rfl) (hrec.setStatus (by decide) _)
    · cases hs
      exact inv_updateLast hrs (h.alone ht rfl) ⟨hrec.resumed, hrec.own, fun _ => Or.inr hrun.2.own⟩
  | failing e =>
    cases hs
    exact inv_end (hrs.update o (hrec.setStatus (by decide) _) (fun hj => absurd rfl hj)
      (Or.inr fun hr => hr))
  | _ => cases hs

/-! ### Runs -/

/-- Every step of a run keeps the invariant, if it is alone when it passes its check. -/
theorem inv_taskStep {choice : Choice} (h : Inv s)
    (ht : s.tasks j = some t) (halone : Alone s (.task j choice))
    (hs : S.taskStep s j t choice = some s') : Inv s' := by
  have hrs := h.rest j
  cases choice with
  | returns => exact inv_returns h ht (halone t ht) (Setup.returns_of_taskStep hs)
  | writes o => exact inv_writes h ht hs
  | raises e residue =>
    obtain ⟨owners, rfl⟩ := Setup.taskStep_raises hs
    exact inv_fail (s := { s with owners := owners }) ⟨hrs.records, hrs.tasks, hrs.unique⟩ e
  | raisesAfter e =>
    rcases Setup.taskStep_raisesAfter hs with ⟨hasMeta, rfl, rfl⟩ | ⟨rfl, rfl⟩ |
      ⟨r, dim, rfl, rfl⟩ | ⟨l, fresh, mayOverlap, last, rfl, rfl⟩
    · exact inv_fail (hrs.drop (h.alone ht rfl)) e
    · exact inv_fail (s := { s with owners := s.owners.erase (S.ns j) })
        ⟨hrs.records, hrs.tasks, hrs.unique⟩ e
    · exact inv_fail (s := { s with table := some s.rows }) ⟨hrs.records, hrs.tasks, hrs.unique⟩ e
    · exact inv_fail (hrs.append (h.alone ht rfl) (h.tasks j _ ht).2 (S.ns j) fresh).1 e

/-- A change of the status by a request or by the scheduler. -/
theorem inv_transition (h : Inv s) (status : JobStatus) (hstat : status ≠ .done)
    (hact : Active (s.mem j) → status = .running ∨ status = .cancelling)
    (outcome rewrite : WriteOutcome) : Inv (s.transition j status outcome rewrite).1 := by
  let fields : ImportJob → ImportJob := fun job => { job with status := status }
  have hrecs := records_update fields h.records ((h.records j).1.setStatus hstat _) outcome
  have hkp : ∀ i, Keeps s (s.update j outcome fields) i :=
    fun i => keeps_update outcome (fun _ => ⟨rfl, hact⟩) (Or.inr fun hr => hr)
  unfold State.transition
  dsimp only
  split_ifs
  · -- the write raised: memory is as before, and the file is rewritten or not
    refine h.of_keeps (fun i => ⟨(h.records i).1, ?_⟩) (fun i => rfl) fun i =>
      ⟨fun hc => hc, fun ha => ha, fun _ => rfl, fun hps k hk hrev =>
        ⟨hrev, fun hf => ?_, fun hd => hd⟩⟩
    · rcases rewrite.publish_eq_or (s.update j outcome fields).file s.mem with hp | hp
      · rw [hp]
        exact (hrecs i).2
      · rw [hp]
        exact (h.records i).1
    · rcases rewrite.publish_eq_or (s.update j outcome fields).file s.mem with hp | hp
      · rw [hp]
        exact ((hkp i).others hps k hk hrev).2.1 hf
      · rw [hp]
        exact hrev
  · exact h.of_keeps hrecs (fun i => rfl) hkp

/-- A transition that returns has changed the status. -/
theorem mem_of_transition {status : JobStatus} {outcome rewrite : WriteOutcome}
    (h : s.transition j status outcome rewrite = (s', true)) :
    s'.mem j = { s.mem j with status := status } := by
  simp only [State.transition] at h
  split_ifs at h
  · cases h
  · obtain rfl := (Prod.mk.inj h).1
    exact State.mem_update_self s j outcome _

/-- Every event keeps the invariant, if runs are alone when they pass their check. -/
theorem inv_step {e : Event J} (halone : Alone s e) (h : Inv s)
    (hs : S.step s e = some s') : Inv s' := by
  cases e with
  | dispatch j outcome rewrite =>
    simp only [Setup.step] at hs
    split_ifs at hs with hguard
    have hqd : ¬Active (s.mem j) := by
      rintro (ha | ha) <;> rw [hguard.1] at ha <;> cases ha
    have htran := inv_transition h .running (by decide) (fun ha => absurd ha hqd) outcome rewrite
    split at hs
    · rename_i s₁ heq
      cases hs
      have hact : Active (s₁.mem j) := by
        rw [mem_of_transition heq]
        exact Or.inl rfl
      rw [heq] at htran
      exact inv_goto_before (htran.rest j) hact rfl
    · rename_i s₁ heq
      cases hs
      rw [heq] at htran
      exact htran
  | resume j outcome rewrite =>
    obtain ⟨hfa, rfl⟩ := of_guard hs
    refine inv_transition h .queued (by decide) (fun ha => ?_) outcome rewrite
    rcases ha with ha | ha <;> rw [hfa] at ha <;> cases ha
  | cancel j outcome rewrite =>
    obtain ⟨-, rfl⟩ := of_guard hs
    exact inv_transition h .cancelling (by decide) (fun _ => Or.inr rfl) outcome rewrite
  | task j choice =>
    simp only [Setup.step] at hs
    split at hs
    · rename_i t ht
      exact inv_taskStep h ht halone hs
    · cases hs
  | restart outcome checkpointInterval =>
    cases hs
    refine ⟨fun i => ⟨(h.records i).2.recovered, ?_⟩, (by rintro i t ⟨⟩), ?_⟩
    · rcases outcome.publish_eq_or s.file (fun k => (s.file k).recovered) with hp | hp
      · rw [hp]
        exact (h.records i).2
      · rw [hp]
        exact (h.records i).2.recovered
    · rintro i k ⟨t, ht, -⟩
      cases ht

/-! ### Whole runs -/

/-- **A finished import is alone in its collection**: in every run in which no import passes
its check between the check of another one and its first row, an import that is about to
write its `DONE` has all rows of the collection, from its archive; and so has one that is
`DONE`, unless another one has dropped or claimed the collection since its last rows. -/
theorem isolated_of_alone (S : Setup J δ β) (s₀ s : State J δ β) (events : List (Event J))
    (hinit : Init s₀) (halone : Along S.step Alone s₀ events)
    (hrun : run S.step s₀ events = some s) (j : J) :
    (∀ l, s.tasks j = some (.finishing l) → FromArchive S s j) ∧
      ((s.mem j).status = .done → Isolated S s j) := by
  have hinv : Inv s :=
    run_invariant_along (fun _ _ _ halone h hs => inv_step halone h hs) halone hinit.inv hrun
  have hprov : Provenance.Inv S s :=
    run_invariant (fun _ _ _ h hs => Provenance.inv_step h hs) hinit.provenance hrun
  have hfrom : Own s.rows j → FromArchive S s j :=
    fun ho row hr => ⟨ho row hr, hprov.rows row hr j (ho row hr)⟩
  constructor
  · intro l hl
    exact hfrom (hinv.tasks j _ hl).2.own
  · intro hd
    exact (hinv.records j).1.done hd |>.imp id hfrom

def lateEvents : List (Event Bool) :=
  let returns : Bool → Event Bool := fun j => .task j .returns
  let writes : Bool → Event Bool := fun j => .task j (.writes .written)
  [.dispatch false .written .written, writes false, writes false, returns false, returns false,
    returns false, writes false, writes false, returns false, returns false, returns false,
    .dispatch true .written .written, writes true, writes true, returns true, returns true,
    writes true,
    writes false, returns false, returns false, returns false, writes false, returns false,
    returns false, writes false, returns false, writes false]

theorem isolated_of_alone_late :
    ∃ s, run sampleSetup.step sampleState lateEvents = some s ∧
      (s.mem false).status = .done ∧ (s.mem true).status = .failed ∧
      s.rows.map (fun row => row.chunk.chunkId) = ["a1", "a2"] ∧
      FromArchive sampleSetup s false := by
  refine ⟨_, rfl, rfl, rfl, rfl, ?_⟩
  have hinit : Init sampleState := ⟨fun _ => rfl, fun _ => rfl, fun _ => rfl, by decide⟩
  have hisol :=
    (isolated_of_alone sampleSetup sampleState _ lateEvents hinit (by decide) rfl false).2 rfl
  exact hisol.resolve_left (by decide)

end ArchonSearch.Import.Isolation
