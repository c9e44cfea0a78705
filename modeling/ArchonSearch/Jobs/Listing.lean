import Mathlib.Data.Prod.Lex
import Mathlib.Data.String.Basic
import ArchonSearch.Jobs.Types
import ArchonSearch.Lib.Pages
import ArchonSearch.Lib.Run

/-!
# Pages of jobs

`GET /jobs` filters the table, sorts the rest by the time of creation, the newest first, and shows
a page of it. The cursor is the id of the last job of the page, and the next page begins after that
job; where it is not in the list any more, the listing starts again.

Between two pages jobs are created and change their status. A job keeps its place among the others:
the sort is stable, and a change leaves a job where it is in the table. A client that follows the
cursors therefore sees every job that is listed all the time, and no job twice as long as the job of
the cursor still passes the filter (`paginates`). Where it does not, the first page comes again
(`seen_twice`).
-/

namespace ArchonSearch.Jobs.Listing

open Lib List

inductive JobType where
  | ingest
  | reindex
  | delete
  | exportJob
  | importJob
  | migration
  | sync
  | description
  | metadataReindex
  | communityRebuild
  deriving DecidableEq

structure Job where
  (jobId ns createdAt : String)
  status : JobStatus
  source : IngestSource
  type : JobType

/-- The jobs of `JobStore`, in the order of the dictionary. -/
abbrev Table := List Job

/-- `_KIND_TYPE_MAP`. -/
def kindTypeMap : String → Option JobType
  | "ingest" => some .ingest
  | "reindex" => some .reindex
  | "delete" => some .delete
  | "export" => some .exportJob
  | "import" => some .importJob
  | "migration" => some .migration
  | "sync" => some .sync
  | "description" => some .description
  | _ => none

/-- A request but for its cursor; `str.upper` and `str.lower` are parameters. -/
structure Query where
  (upper lower : String → String)
  ns : String
  (status kind source : List String)
  limit : ℕ

/-! ### The listing -/

/-- The four filters of `list_jobs`. -/
def Query.matches (q : Query) (j : Job) : Bool :=
  j.ns == q.ns && (q.status.isEmpty || (q.status.map q.upper).contains j.status.value) &&
    (q.source.isEmpty || (q.source.map q.lower).contains j.source.value) &&
    (q.kind.isEmpty || (q.kind.filterMap fun k => kindTypeMap (q.lower k)).contains j.type)

/-- `jobs`, filtered and sorted. -/
def listed (q : Query) (table : Table) : List Job :=
  (table.filter q.matches).insertionSort fun a b => b.createdAt ≤ a.createdAt

def afterCursor (cursor : Option String) (jobs : List Job) : List Job :=
  match cursor.bind fun c => jobs.findIdx? (·.jobId == c) with
  | some index => jobs.drop (index + 1)
  | none => jobs

/-- `JobListResponse`. -/
structure JobListResponse where
  items : List Job
  nextCursor : Option String
  total : ℕ

/-- `list_jobs`. -/
def listJobs (q : Query) (cursor : Option String) (table : Table) : JobListResponse :=
  let answer := page Job.jobId q.limit (afterCursor cursor (listed q table))
  { items := answer.1, nextCursor := answer.2, total := (listed q table).length }

/-! ### A client -/

inductive Client where
  | first
  | after (cursor : String)
  | finished

structure State where
  table : Table
  client : Client := .first
  seen : List String := []

inductive Event where
  | create : Job → Event
  | setStatus : (jobId : String) → JobStatus → Event
  | page

def changed (jobId : String) (status : JobStatus) (j : Job) : Job :=
  if j.jobId = jobId then { j with status := status } else j

def State.shown (q : Query) (s : State) (cursor : Option String) : State :=
  let answer := listJobs q cursor s.table
  { s with
    client := answer.nextCursor.elim .finished .after
    seen := s.seen ++ answer.items.map Job.jobId }

def step (q : Query) (s : State) : Event → Option State
  | .create job =>
    if job.jobId ∈ s.table.map Job.jobId then none else some { s with table := s.table ++ [job] }
  | .setStatus jobId status => some { s with table := s.table.map (changed jobId status) }
  | .page =>
    match s.client with
    | .first => some (s.shown q none)
    | .after cursor => some (s.shown q (some cursor))
    | .finished => none

/-- The job is there and passes the filters. -/
def Listed (q : Query) (table : Table) (jobId : String) : Prop :=
  ∃ job ∈ table, job.jobId = jobId ∧ q.matches job = true

instance (q : Query) (table : Table) (jobId : String) : Decidable (Listed q table jobId) :=
  inferInstanceAs (Decidable (∃ job ∈ table, _))

/-- The job of the cursor that is asked for is listed. -/
def CursorListed (q : Query) (s : State) (e : Event) : Prop :=
  match e, s.client with
  | .page, .after cursor => Listed q s.table cursor
  | _, _ => True

instance (q : Query) (s : State) (e : Event) : Decidable (CursorListed q s e) := by
  unfold CursorListed
  split <;> infer_instance

/-! ### The place of a job -/

def rank (table : Table) (j : Job) : Stringᵒᵈ ×ₗ ℕ :=
  toLex (OrderDual.toDual j.createdAt, (table.map Job.jobId).idxOf j.jobId)

variable {q : Query} {table : Table} {jobs : List Job} {job : Job}

/-- A stable sort keeps jobs of one time in their order. -/
theorem pairwise_rank_insertionSort
    (h : jobs.Pairwise fun a b =>
      (table.map Job.jobId).idxOf a.jobId < (table.map Job.jobId).idxOf b.jobId) :
    (jobs.insertionSort fun a b => b.createdAt ≤ a.createdAt).Pairwise fun a b =>
      rank table a < rank table b := by
  have hlt {a b : Job} : rank table a < rank table b ↔ b.createdAt < a.createdAt ∨
      a.createdAt = b.createdAt ∧
        (table.map Job.jobId).idxOf a.jobId < (table.map Job.jobId).idxOf b.jobId := by
    simp [rank, Prod.Lex.toLex_lt_toLex]
  -- the job that is inserted stands in the table before those that are sorted
  have hins (a : Job) (l : List Job) (hl : l.Pairwise fun a b => rank table a < rank table b)
      (ha : ∀ b ∈ l, (table.map Job.jobId).idxOf a.jobId < (table.map Job.jobId).idxOf b.jobId) :
      (l.orderedInsert (fun a b => b.createdAt ≤ a.createdAt) a).Pairwise fun a b =>
        rank table a < rank table b := by
    induction l with
    | nil => simp
    | cons b l ih =>
      obtain ⟨hb, hl⟩ := pairwise_cons.mp hl
      have hab := ha b mem_cons_self
      rw [List.orderedInsert]
      split_ifs with hle
      · have hfst : rank table a < rank table b :=
          hlt.mpr (hle.lt_or_eq.imp_right fun heq => ⟨heq.symm, hab⟩)
        refine pairwise_cons.mpr ⟨fun c hc => ?_, pairwise_cons.mpr ⟨hb, hl⟩⟩
        rcases mem_cons.mp hc with rfl | hc
        · exact hfst
        · exact hfst.trans (hb c hc)
      · refine pairwise_cons.mpr ⟨fun c hc => ?_, ih hl fun c hc =>
          ha c (mem_cons_of_mem _ hc)⟩
        rcases (mem_orderedInsert _).mp hc with rfl | hc
        · exact hlt.mpr (Or.inl (not_le.mp hle))
        · exact hb c hc
  induction jobs with
  | nil => exact List.Pairwise.nil
  | cons a jobs ih =>
    obtain ⟨ha, hjs⟩ := pairwise_cons.mp h
    exact hins a _ (ih hjs) fun b hb => ha b ((mem_insertionSort _).mp hb)

/-- **The list is in order**, and no two jobs of it have one place. -/
theorem pairwise_rank_listed (h : (table.map Job.jobId).Nodup) :
    (listed q table).Pairwise fun a b => rank table a < rank table b := by
  refine pairwise_rank_insertionSort (List.Pairwise.filter _ ?_)
  rw [pairwise_iff_getElem]
  intro i k hi hk hik
  have hidx (m : ℕ) (hm : m < table.length) :
      (table.map Job.jobId).idxOf table[m].jobId = m := by
    have hg := h.idxOf_getElem m (by simpa using hm)
    rwa [getElem_map] at hg
  rw [hidx i hi, hidx k hk]
  exact hik

theorem mem_listed : job ∈ listed q table ↔ job ∈ table ∧ q.matches job = true := by
  rw [listed, mem_insertionSort, mem_filter]

theorem jobId_injOn (h : (table.map Job.jobId).Nodup) {a b : Job} (ha : a ∈ table)
    (hb : b ∈ table) (hab : a.jobId = b.jobId) : a = b := inj_on_of_nodup_map h ha hb hab

/-- **What comes after a cursor that is found** are the jobs with a later place. -/
theorem afterCursor_listed (h : (table.map Job.jobId).Nodup) (hj : job ∈ listed q table) :
    afterCursor (some job.jobId) (listed q table) =
      after (rank table) (some (rank table job)) (listed q table) := by
  obtain ⟨before, rest, hsplit⟩ := append_of_mem hj
  have hsort := pairwise_rank_listed (q := q) h
  rw [after_getLast hsplit hsort]
  have hbef : ∀ a ∈ before, (a.jobId == job.jobId) = false := by
    intro a ha
    have hlt : rank table a < rank table job := by
      rw [hsplit] at hsort
      exact (pairwise_append.mp hsort).2.2 a ha job mem_cons_self
    refine beq_false_of_ne fun heq => hlt.ne (congrArg _ ?_)
    exact jobId_injOn h (mem_listed.mp (hsplit ▸ mem_append_left _ ha)).1 (mem_listed.mp hj).1 heq
  have hfind : (listed q table).findIdx? (·.jobId == job.jobId) = some before.length := by
    rw [hsplit, findIdx?_append, findIdx?_eq_none_iff.mpr hbef]
    simp [findIdx?_cons]
  simp only [afterCursor, Option.bind_some, hfind]
  rw [hsplit]
  simp

/-! ### What the pages leave and take -/

/-- The ids that are shown, `once` each, and, of the job that is followed, how far the client is
from it. -/
structure Inv (once : Prop) (followed : Option String) (s : State) : Prop where
  nodup : (s.table.map Job.jobId).Nodup
  seen : once → s.seen.Nodup
  known : ∀ x ∈ s.seen, x ∈ s.table.map Job.jobId
  place : match s.client with
    | .first => s.seen = []
    | .after cursor => ∃ b ∈ s.table, b.jobId = cursor ∧
      (once → ∀ a ∈ s.table, a.jobId ∈ s.seen → rank s.table a ≤ rank s.table b) ∧
      ∀ a ∈ s.table, a.jobId ∈ followed → rank s.table a ≤ rank s.table b → a.jobId ∈ s.seen
    | .finished => ∀ x ∈ followed, x ∈ s.seen

variable {once : Prop} {followed : Option String} {s t : State}

/-- The table changes, and the jobs keep their places. -/
theorem Inv.move {table' : Table} (h : Inv once followed s) (hnd : (table'.map Job.jobId).Nodup)
    (hfol : ∀ x ∈ followed, x ∈ s.table.map Job.jobId)
    (hback : ∀ a' ∈ table', a'.jobId ∈ s.table.map Job.jobId →
      ∃ a ∈ s.table, a.jobId = a'.jobId ∧ rank s.table a = rank table' a')
    (hfor : ∀ a ∈ s.table, ∃ a' ∈ table', a'.jobId = a.jobId ∧
      rank table' a' = rank s.table a) : Inv once followed { s with table := table' } := by
  refine ⟨hnd, h.seen, fun x hx => ?_, ?_⟩
  · obtain ⟨a, ha, rfl⟩ := mem_map.mp (h.known x hx)
    obtain ⟨a', ha', hid, -⟩ := hfor a ha
    exact hid ▸ mem_map_of_mem ha'
  have hplace := h.place
  cases hclient : s.client with
  | first => simpa [hclient] using hplace
  | finished => simpa [hclient] using hplace
  | after cursor =>
    simp only [hclient] at hplace ⊢
    obtain ⟨b, hb, hid, hseen, hsh⟩ := hplace
    obtain ⟨b', hb', hid', hrank⟩ := hfor b hb
    refine ⟨b', hb', hid'.trans hid, fun honce a' ha' hm => ?_, fun a' ha' hm hle => ?_⟩
    · obtain ⟨a, ha, heq, hplace⟩ := hback a' ha' (h.known _ hm)
      rw [← hplace, hrank]
      exact hseen honce a ha (heq ▸ hm)
    · obtain ⟨a, ha, heq, hplace⟩ := hback a' ha' (hfol _ hm)
      rw [← heq] at hm ⊢
      exact hsh a ha hm (by rw [hplace, ← hrank]; exact hle)

/-- A page is shown, of the jobs after the place of the cursor. -/
theorem Inv.shown {cursor : Option String} {k : Option (Stringᵒᵈ ×ₗ ℕ)} (h : Inv once followed s)
    (hlim : 0 < q.limit) (hfoll : ∀ x ∈ followed, Listed q s.table x)
    (hrw : afterCursor cursor (listed q s.table) = after (rank s.table) k (listed q s.table))
    (hseen : once → ∀ a ∈ s.table, a.jobId ∈ s.seen → ∃ c ∈ k, rank s.table a ≤ c)
    (hsh : ∀ a ∈ s.table, a.jobId ∈ followed → (∃ c ∈ k, rank s.table a ≤ c) →
      a.jobId ∈ s.seen) : Inv once followed (s.shown q cursor) := by
  have hsort := (pairwise_rank_listed (q := q) h.nodup).sublist
    (after_sublist (rank s.table) k (listed q s.table))
  set rows := after (rank s.table) k (listed q s.table) with hrowsDef
  have hm {a : Job} (ha : a ∈ rows) : a ∈ s.table ∧ ∀ c ∈ k, c < rank s.table a := by
    obtain ⟨hlis, hlat⟩ := mem_after.mp ha
    exact ⟨(mem_listed.mp hlis).1, hlat⟩
  have hw (honce : once) {a : Job} (ha : a ∈ rows) : a.jobId ∉ s.seen := by
    intro hold
    obtain ⟨c, hc, hle⟩ := hseen honce a (hm ha).1 hold
    exact absurd ((hm ha).2 c hc) (not_lt.mpr hle)
  have hids {items : List Job} (his : items.Sublist rows) :
      (once → (s.seen ++ items.map Job.jobId).Nodup) ∧
        ∀ x ∈ s.seen ++ items.map Job.jobId, x ∈ s.table.map Job.jobId := by
    refine ⟨fun honce => nodup_append'.mpr ⟨h.seen honce, ?_, fun x hx hx' => ?_⟩, fun x hx => ?_⟩
    · refine List.Nodup.map_on (fun a ha b hb hab => ?_)
        ((hsort.sublist his).imp fun hlt heq => hlt.ne (congrArg _ heq))
      exact jobId_injOn h.nodup (hm (his.subset ha)).1 (hm (his.subset hb)).1 hab
    · obtain ⟨a, ha, rfl⟩ := mem_map.mp hx'
      exact hw honce (his.subset ha) hx
    · rcases mem_append.mp hx with hx | hx
      · exact h.known x hx
      · obtain ⟨a, ha, rfl⟩ := mem_map.mp hx
        exact mem_map_of_mem (hm (his.subset ha)).1
  -- a job that is followed was shown, or is among the rows
  have hsplit {a : Job} (ha : a ∈ s.table) (hfol : a.jobId ∈ followed) :
      a.jobId ∈ s.seen ∨ a ∈ rows := by
    by_cases hbef : ∃ c ∈ k, rank s.table a ≤ c
    · exact Or.inl (hsh a ha hfol hbef)
    · obtain ⟨a', ha', hid, hmat⟩ := hfoll _ hfol
      obtain rfl := jobId_injOn h.nodup ha' ha hid
      refine Or.inr (mem_after.mpr ⟨mem_listed.mpr ⟨ha, hmat⟩, fun c hc => ?_⟩)
      exact not_le.mp fun hle => hbef ⟨c, hc, hle⟩
  unfold State.shown listJobs
  rw [hrw]
  by_cases hmore : q.limit < rows.length
  · obtain ⟨init, last, rest, hrs, htake, hpage⟩ := page_eq_of_lt Job.jobId hlim hmore
    have hsub : (init ++ [last]).Sublist rows := by
      rw [← htake]
      exact take_sublist _ _
    obtain ⟨hnd, hknown⟩ := hids hsub
    have hl : last ∈ rows := hsub.subset (by simp)
    rw [hrs] at hsort
    obtain ⟨-, haft, hbef⟩ := pairwise_append.mp hsort
    simp only [hpage]
    refine ⟨h.nodup, hnd, hknown, last, (hm hl).1, rfl, fun honce a ha hshownNow => ?_,
      fun a ha hfol hle => ?_⟩
    · rcases mem_append.mp hshownNow with hold | hpageOf
      · obtain ⟨c, hc, hle⟩ := hseen honce a ha hold
        exact hle.trans ((hm hl).2 c hc).le
      · obtain ⟨a', ha', hid⟩ := mem_map.mp hpageOf
        obtain rfl := jobId_injOn h.nodup (hm (hsub.subset ha')).1 ha hid
        rcases mem_append.mp ha' with ha' | ha'
        · exact (hbef _ ha' last mem_cons_self).le
        · exact (congrArg _ (mem_singleton.mp ha')).le
    · refine mem_append.mpr ((hsplit ha hfol).imp_right fun hr => ?_)
      rw [hrs] at hr
      rcases mem_append.mp hr with hr | hr
      · exact mem_map_of_mem (mem_append_left _ hr)
      · rcases mem_cons.mp hr with rfl | hr
        · exact mem_map_of_mem (by simp)
        · exact absurd (rel_of_pairwise_cons haft hr) (not_lt.mpr hle)
  · have hpage : page Job.jobId q.limit rows = (rows, none) := if_neg hmore
    obtain ⟨hnd, hknown⟩ := hids (List.Sublist.refl rows)
    simp only [hpage]
    refine ⟨h.nodup, hnd, hknown, fun x hx => ?_⟩
    obtain ⟨a, ha, rfl, -⟩ := hfoll x hx
    exact mem_append.mpr ((hsplit ha hx).imp_right mem_map_of_mem)

/-- **A cursor that is not in the list starts it again.** -/
theorem afterCursor_of_not_listed {cursor : String} (h : ¬Listed q table cursor) :
    afterCursor (some cursor) (listed q table) = listed q table := by
  have hn : (listed q table).findIdx? (·.jobId == cursor) = none := by
    refine findIdx?_eq_none_iff.mpr fun a ha => beq_false_of_ne fun hid => h ?_
    exact ⟨a, (mem_listed.mp ha).1, hid, (mem_listed.mp ha).2⟩
  simp [afterCursor, hn]

/-- **Every step keeps what was shown**, and keeps it apart if the cursor is in the list. -/
theorem Inv.step {e : Event} (h : Inv once followed s) (hlim : 0 < q.limit)
    (hcur : once → CursorListed q s e) (hfol : ∀ x ∈ followed, Listed q s.table x)
    (hs : step q s e = some t) : Inv once followed t := by
  have hin : ∀ x ∈ followed, x ∈ s.table.map Job.jobId := by
    intro x hx
    obtain ⟨a, ha, rfl, -⟩ := hfol x hx
    exact mem_map_of_mem ha
  cases e with
  | create job =>
    simp only [Listing.step] at hs
    split_ifs at hs with hold
    cases hs
    have hrank {a : Job} (ha : a ∈ s.table) : rank (s.table ++ [job]) a = rank s.table a := by
      rw [rank, map_append, idxOf_append_of_mem (mem_map_of_mem ha), rank]
    refine h.move ?_ hin (fun a' ha' hid => ?_) fun a ha =>
      ⟨a, mem_append_left _ ha, rfl, hrank ha⟩
    · rw [map_append, nodup_append']
      exact ⟨h.nodup, nodup_singleton _, by simpa using hold⟩
    · rcases mem_append.mp ha' with ha | ha
      · exact ⟨a', ha, rfl, (hrank ha).symm⟩
      · rw [mem_singleton.mp ha] at hid
        exact absurd hid hold
  | setStatus jobId status =>
    cases hs
    have hid (a : Job) : (changed jobId status a).jobId = a.jobId := by
      unfold changed
      split_ifs <;> rfl
    have hids : (s.table.map (changed jobId status)).map Job.jobId = s.table.map Job.jobId := by
      rw [map_map]
      exact map_congr_left fun a _ => hid a
    have hrank (a : Job) : rank (s.table.map (changed jobId status)) (changed jobId status a) =
        rank s.table a := by
      rw [rank, hids, hid, rank]
      unfold changed
      split_ifs <;> rfl
    refine h.move (hids ▸ h.nodup) hin (fun a' ha' _ => ?_) fun a ha =>
      ⟨_, mem_map_of_mem ha, hid a, hrank a⟩
    obtain ⟨a, ha, rfl⟩ := mem_map.mp ha'
    exact ⟨a, ha, (hid a).symm, (hrank a).symm⟩
  | page =>
    have hplace := h.place
    cases hclient : s.client with
    | first =>
      simp only [Listing.step, hclient, Option.some.injEq] at hs hplace
      refine hs ▸ h.shown (k := none) hlim hfol ?_ ?_ ?_
      · rw [after_none]
        rfl
      · simp [hplace]
      · rintro a - - ⟨c, ⟨⟩, -⟩
    | after cursor =>
      simp only [Listing.step, hclient, Option.some.injEq] at hs hplace
      obtain ⟨b, hb, rfl, hseen, hsh⟩ := hplace
      simp only [CursorListed, hclient] at hcur
      by_cases hlis : Listed q s.table b.jobId
      · obtain ⟨b', hb', hid, hmat⟩ := hlis
        obtain rfl := jobId_injOn h.nodup hb' hb hid
        refine hs ▸ h.shown (k := some (rank s.table b')) hlim hfol
          (afterCursor_listed h.nodup (mem_listed.mpr ⟨hb, hmat⟩)) ?_ ?_
        · exact fun honce a ha hm => ⟨_, rfl, hseen honce a ha hm⟩
        · rintro a ha hm ⟨c, ⟨⟩, hle⟩
          exact hsh a ha hm hle
      · refine hs ▸ h.shown (k := none) hlim hfol ?_ (fun honce => absurd (hcur honce) hlis) ?_
        · rw [after_none]
          exact afterCursor_of_not_listed hlis
        · rintro a - - ⟨c, ⟨⟩, -⟩
    | finished =>
      simp only [Listing.step, hclient] at hs
      cases hs

/-! ### The pages -/

/-- **A client that follows the cursors sees every job that is in the list all the time, and no job
twice** if the job of each cursor is in the list still when the next page is asked for. Where it is
not, the first page comes again. -/
theorem paginates (q : Query) (hlimit : 0 < q.limit) (table : Table)
    (hnodup : (table.map Job.jobId).Nodup) (es : List Event) (t : State)
    (hrun : run (step q) { table := table } (.page :: es) = some t) :
    (Along (step q) (CursorListed q) { table := table } (.page :: es) → t.seen.Nodup) ∧
    (t.client = .finished → ∀ jobId, Along (step q) (fun s _ => Listed q s.table jobId)
      { table := table } (.page :: es) → jobId ∈ t.seen) ∧
    ∀ s cursor, ¬Listed q s cursor → listJobs q (some cursor) s = listJobs q none s := by
  have hinv (once : Prop) (followed : Option String) (h : Along (step q) (fun s e =>
      (once → CursorListed q s e) ∧ ∀ x ∈ followed, Listed q s.table x) { table := table }
        (.page :: es)) : Inv once followed t :=
    run_invariant_along (fun s e s' hC hs hst => hs.step hlimit hC.1 hC.2 hst) h
      ⟨hnodup, fun _ => nodup_nil, by simp, rfl⟩ hrun
  refine ⟨fun hcur => ?_, fun hfin jobId hlis => ?_, fun s cursor hnot => ?_⟩
  · exact (hinv True none (by simpa using hcur)).seen trivial
  · have hplace := (hinv False (some jobId) (by simpa using hlis)).place
    rw [hfin] at hplace
    exact hplace jobId rfl
  · rw [listJobs, listJobs, afterCursor_of_not_listed hnot]
    rfl

def pendingJobs : Query where
  upper := String.toUpper
  lower := String.toLower
  ns := "default"
  status := ["pending"]
  kind := []
  source := []
  limit := 2

def threeJobs : Table :=
  [⟨"a", "default", "2026-01-01", .pending, .user, .ingest⟩,
    ⟨"b", "default", "2026-01-02", .pending, .user, .ingest⟩,
    ⟨"c", "default", "2026-01-02", .pending, .user, .sync⟩]

/-- Before the second page the other job of the first one is started, and a new one comes. -/
def startedMeanwhile : List Event :=
  [.page, .setStatus "b" .running,
    .create ⟨"d", "default", "2026-01-03", .pending, .user, .ingest⟩, .page]

theorem paginates_startedMeanwhile : ∃ t,
    run (step pendingJobs) { table := threeJobs } startedMeanwhile = some t ∧
      t.seen = ["b", "c", "a"] ∧ t.seen.Nodup := by
  obtain ⟨t, hr, hseen⟩ : ∃ t ∈ run (step pendingJobs) { table := threeJobs } startedMeanwhile,
      t.seen = ["b", "c", "a"] := by
    decide +kernel
  exact ⟨t, hr, hseen, (paginates pendingJobs (by decide) threeJobs
    (by decide) _ t hr).1 (by decide +kernel)⟩

/-- **A client sees a job twice**: the job of its cursor is started before it asks again. -/
theorem seen_twice : ¬∀ (q : Query) (table : Table) (es : List Event) (t : State), 0 < q.limit →
    (table.map Job.jobId).Nodup → run (step q) { table := table } (.page :: es) = some t →
    t.seen.Nodup := by
  intro h
  obtain ⟨t, hr, hseen⟩ : ∃ t ∈ run (step pendingJobs) { table := threeJobs }
      [.page, .setStatus "c" .running, .page], t.seen = ["b", "c", "b", "a"] := by
    decide +kernel
  have hnd := h pendingJobs threeJobs _ t (by decide) (by decide) hr
  rw [hseen] at hnd
  exact absurd hnd (by decide)

end ArchonSearch.Jobs.Listing
