import ArchonSearch.Lib.Run
import ArchonSearch.Lib.SingleFlight

/-!
# The background tasks of the maintenance loop

Three kinds of work are done in the background for one pair of namespace and collection: the
rebuild of the communities, the synonym enrichment and the recompute of the PageRank scores. Each
has a map that holds the last task, with its marks `pending` and `completed`, and a callback that
runs one turn of the event loop after its task is done. A rebuild is requested by the garbage
collection that removed nodes, and by a pass that drains the mark an enrichment has left; the
other two by every ingest that has written edges.

All three look a task up by key. The callback of a task that is done acts on whatever entry it
finds, so a request that comes before the callback replaces the entry under it; and the drain
starts a rebuild without looking for one that runs. `Orderly` excludes these two steps, and in
every run of the others at most one task of a kind runs, and a task that started after the latest
request has finished when none is left (`singleFlight_of_orderly`). Neither can be dropped
(`two_running`).
-/

namespace ArchonSearch.Jobs.Rebuild

open Lib Flight Option

/-! ### One kind of work -/

section Scheduler

variable (f : Flight) (i : ℕ)

/-- Whether the task of an entry is `done()`. -/
def isDone (e : TaskEntry) : Bool := f.phase e.task != .running

def request : Flight :=
  match f.entry with
  | some e =>
    if isDone f e then (f.setEntry none).spawn else f.setEntry (some { e with pending := true })
  | none => f.spawn

def onScheduledDone : Flight :=
  match f.entry with
  | some e =>
    if e.pending then request ((f.settled i).setEntry (some { e with pending := false }))
    else (f.settled i).setEntry none
  | none => f.settled i

/-- The callback of a rebuild: it leaves the entry for the next pass, or starts another one. -/
def onRebuildDone : Flight :=
  match f.entry with
  | some e =>
    if e.pending then ((f.settled i).setEntry (some { e with pending := false })).spawn
    else (f.settled i).setEntry (some { e with completed := true })
  | none => f.settled i

end Scheduler

/-! ### The loop -/

inductive Work where
  | rebuild
  | synonym
  | pagerank

structure MaintenanceLoop where
  (rebuildState synonymState pagerankState : Flight)
  /-- The pair is in `_communities_pending_rebuild`. -/
  (communitiesPendingRebuild communitiesInvalidated : Bool)

namespace MaintenanceLoop

def init : MaintenanceLoop := ⟨.init, .init, .init, false, false⟩

variable (s : MaintenanceLoop)

def tasks : Work → Flight
  | .rebuild => s.rebuildState
  | .synonym => s.synonymState
  | .pagerank => s.pagerankState

def spawnRebuildTask : MaintenanceLoop := { s with rebuildState := s.rebuildState.spawn }

def runGraphGc (invalidated : Bool) : MaintenanceLoop :=
  if invalidated then { s with rebuildState := request s.rebuildState.note } else s

def consumeCompletedRebuild : Bool × MaintenanceLoop :=
  match s.rebuildState.entry with
  | some e =>
    if e.completed then (true, { s with rebuildState := s.rebuildState.setEntry none })
    else (false, s)
  | none => (false, s)

def clearConsumed : MaintenanceLoop :=
  if s.consumeCompletedRebuild.1 then
    { s.consumeCompletedRebuild.2 with communitiesInvalidated := false }
  else s.consumeCompletedRebuild.2

/-- The garbage collection of a pass, which was skipped or has removed something or nothing. -/
def runCollectionGraphGc (gcResult : Option Bool) : MaintenanceLoop :=
  let s := s.runGraphGc (gcResult.getD false)
  if gcResult = some true then { s with communitiesInvalidated := true }
  else if s.rebuildState.entry = none then { s with communitiesInvalidated := false }
  else s.clearConsumed

def drainCommunitiesPendingRebuild : MaintenanceLoop :=
  if s.communitiesPendingRebuild then
    spawnRebuildTask
      { s with communitiesPendingRebuild := false, rebuildState := s.rebuildState.note }
  else s

def scheduleSynonymEnrichment : MaintenanceLoop :=
  { s with synonymState := request s.synonymState.note }

def schedulePagerankRecompute : MaintenanceLoop :=
  { s with pagerankState := request s.pagerankState.note }

def onDone (i : ℕ) : Work → MaintenanceLoop
  | .rebuild => { s with rebuildState := onRebuildDone s.rebuildState i }
  | .synonym => { s with synonymState := onScheduledDone s.synonymState i }
  | .pagerank => { s with pagerankState := onScheduledDone s.pagerankState i }

def finish (i : ℕ) : Work → Option MaintenanceLoop
  | .rebuild => (s.rebuildState.finish i).map fun f => { s with rebuildState := f }
  | .synonym => (s.synonymState.finish i).map fun f => { s with synonymState := f }
  | .pagerank => (s.pagerankState.finish i).map fun f => { s with pagerankState := f }

/-- **Single flight**: at most one task of each kind runs, and where none is left one that was
started after the latest request has finished. -/
def SingleFlight : Prop := ∀ w, (s.tasks w).AtMostOne ∧ (s.tasks w).Served

def Tracked : Prop := ∀ w, (s.tasks w).Tracked

end MaintenanceLoop

inductive Event where
  | synonymEdgesWritten
  | defrefEdgesWritten
  | gc : (gcResult : Option Bool) → Event
  | consume
  | drain
  | enriched : (i : ℕ) → Event
  | finish : Work → (i : ℕ) → Event
  | callback : Work → (i : ℕ) → Event

def step (s : MaintenanceLoop) : Event → Option MaintenanceLoop
  | .synonymEdgesWritten => some s.scheduleSynonymEnrichment
  | .defrefEdgesWritten => some s.schedulePagerankRecompute
  | .gc gcResult => some (s.runCollectionGraphGc gcResult)
  | .consume => some s.clearConsumed
  | .drain => some s.drainCommunitiesPendingRebuild
  | .enriched i =>
    if s.synonymState.phase i = .running then some { s with communitiesPendingRebuild := true }
    else none
  | .finish w i => s.finish i w
  | .callback w i => if (s.tasks w).phase i = .ended then some (s.onDone i w) else none

/-- A request comes when no callback of its kind is outstanding, and a mark is drained when no
rebuild is left. -/
def Orderly (s : MaintenanceLoop) : Event → Prop
  | .synonymEdgesWritten => s.synonymState.NoneEnded
  | .defrefEdgesWritten => s.pagerankState.NoneEnded
  | .gc gcResult => gcResult = some true → s.rebuildState.NoneEnded
  | .drain => s.communitiesPendingRebuild = true → s.rebuildState.Still
  | .consume | .enriched _ | .finish _ _ | .callback _ _ => True

instance Orderly.decidable (s : MaintenanceLoop) (e : Event) : Decidable (Orderly s e) := by
  unfold Orderly
  split <;> infer_instance

/-! ### Each operation keeps its tasks tracked -/

section Tracked

variable {f : Flight} {i : ℕ}

/-- Where no entry is about a task that runs, and no callback is outstanding, no task is left. -/
theorem still_of_noneEnded (h : f.Tracked) (hend : f.NoneEnded)
    (hent : ∀ e, f.entry = some e → f.phase e.task ≠ .running) : f.Still := by
  intro j hj ho
  obtain ⟨e, he, rfl, -⟩ := h.entry j ho
  rcases ho with hr | hph
  · exact hent e he hr
  · exact hend e.task hj hph

/-- **A request** that finds no callback outstanding. -/
theorem tracked_request (h : f.Tracked) (hend : f.NoneEnded) : (request f.note).Tracked := by
  unfold request
  cases he : f.note.entry with
  | none =>
    have hstill : f.Still := still_of_noneEnded h hend fun e he' => by
      cases he.symm.trans he'
    exact Flight.Tracked.spawn (f := f.note) h.fresh hstill
  | some e =>
    dsimp only
    split
    · next hd =>
      have hph : f.phase e.task ≠ .running := bne_iff_ne.mp hd
      have hstill : f.Still := still_of_noneEnded h hend fun e' he' => by
        obtain rfl := some.inj (he.symm.trans he')
        exact hph
      exact Flight.Tracked.spawn (f := f.note.setEntry none) h.fresh hstill
    · next hr =>
      refine h.mark he (Or.inl ?_)
      by_contra hne
      exact hr (bne_iff_ne.mpr hne)

/-- **The callback of a scheduled task.** -/
theorem tracked_onScheduledDone (h : f.Tracked) (hi : f.phase i = .ended) :
    (onScheduledDone f i).Tracked := by
  obtain ⟨e, he, rfl, -⟩ := h.entry i (Or.inr hi)
  unfold onScheduledDone
  simp only [he]
  split
  · have hd : isDone ((f.settled e.task).setEntry (some { e with pending := false }))
        { e with pending := false } = true := by
      refine bne_iff_ne.mpr fun hr => ?_
      have hst : (f.settled e.task).phase e.task = .settled := Function.update_self _ _ _
      cases hst.symm.trans hr
    have hreq : request ((f.settled e.task).setEntry (some { e with pending := false })) =
        (f.settled e.task).spawn := if_pos hd
    rw [hreq]
    exact Flight.Tracked.spawn (fresh_settled h (Or.inr hi)) (still_settled h (Or.inr hi))
  · next hpen =>
    exact h.settle he (Or.inr hi) (Bool.not_eq_true _ ▸ hpen) none

/-- **The callback of a rebuild.** -/
theorem tracked_onRebuildDone (h : f.Tracked) (hi : f.phase i = .ended) :
    (onRebuildDone f i).Tracked := by
  obtain ⟨e, he, rfl, -⟩ := h.entry i (Or.inr hi)
  unfold onRebuildDone
  simp only [he]
  split
  · exact Flight.Tracked.spawn (f := (f.settled e.task).setEntry (some { e with pending := false }))
      (fresh_settled h (Or.inr hi)) (still_settled h (Or.inr hi))
  · next hpen =>
    exact h.settle he (Or.inr hi) (Bool.not_eq_true _ ▸ hpen) _

end Tracked

/-! ### The whole loop -/

section Loop

variable {s s' : MaintenanceLoop} {i : ℕ}

theorem tracked_init : MaintenanceLoop.init.Tracked := by
  intro w
  cases w with
  | rebuild => exact Flight.tracked_init
  | synonym => exact Flight.tracked_init
  | pagerank => exact Flight.tracked_init

theorem singleFlight_of_tracked (h : s.Tracked) : s.SingleFlight :=
  fun w => ⟨(h w).atMostOne, (h w).served⟩

/-- What is done to the rebuilds leaves the other kinds alone. -/
theorem tracked_of_rebuild (h : s.Tracked) (hreb : s'.rebuildState.Tracked)
    (hsyn : s'.synonymState = s.synonymState)
    (hpag : s'.pagerankState = s.pagerankState) : s'.Tracked := by
  intro w
  cases w with
  | rebuild => exact hreb
  | synonym =>
    unfold MaintenanceLoop.tasks
    rw [hsyn]
    exact h .synonym
  | pagerank =>
    unfold MaintenanceLoop.tasks
    rw [hpag]
    exact h .pagerank

variable {f : Flight}

theorem tracked_synonym (h : s.Tracked) (hf : f.Tracked) :
    MaintenanceLoop.Tracked { s with synonymState := f } := by
  intro w
  cases w with
  | rebuild => exact h .rebuild
  | synonym => exact hf
  | pagerank => exact h .pagerank

theorem tracked_pagerank (h : s.Tracked) (hf : f.Tracked) :
    MaintenanceLoop.Tracked { s with pagerankState := f } := by
  intro w
  cases w with
  | rebuild => exact h .rebuild
  | synonym => exact h .synonym
  | pagerank => exact hf

theorem tracked_clearConsumed (h : s.Tracked) : s.clearConsumed.Tracked := by
  unfold MaintenanceLoop.clearConsumed MaintenanceLoop.consumeCompletedRebuild
  cases he : s.rebuildState.entry with
  | none => exact h
  | some e =>
    cases hcom : e.completed with
    | false => simpa [he, hcom] using h
    | true =>
      have hcon : MaintenanceLoop.Tracked { s with
          rebuildState := s.rebuildState.setEntry none
          communitiesInvalidated := false } :=
        tracked_of_rebuild h ((h .rebuild).consume he hcom) rfl rfl
      simpa [he, hcom] using hcon

theorem tracked_runCollectionGraphGc (gcResult : Option Bool) (h : s.Tracked)
    (he : gcResult = some true → s.rebuildState.NoneEnded) :
    (s.runCollectionGraphGc gcResult).Tracked := by
  unfold MaintenanceLoop.runCollectionGraphGc
  by_cases htrue : gcResult = some true
  · subst htrue
    exact tracked_of_rebuild h (tracked_request (h .rebuild) (he rfl)) rfl rfl
  have hskip : s.runGraphGc (gcResult.getD false) = s := by
    unfold MaintenanceLoop.runGraphGc
    rw [if_neg]
    cases gcResult with
    | none => simp
    | some b => simpa using htrue
  simp only [hskip, if_neg htrue]
  split
  · exact tracked_of_rebuild h (h .rebuild) rfl rfl
  · exact tracked_clearConsumed h

theorem tracked_drain (h : s.Tracked)
    (hstill : s.communitiesPendingRebuild = true → s.rebuildState.Still) :
    s.drainCommunitiesPendingRebuild.Tracked := by
  unfold MaintenanceLoop.drainCommunitiesPendingRebuild
  split
  · next hmar =>
    exact tracked_of_rebuild h
      (Flight.Tracked.spawn (f := s.rebuildState.note) (h .rebuild).fresh (hstill hmar)) rfl rfl
  · exact h

theorem tracked_finish {w : Work} (h : s.Tracked) (hfin : s.finish i w = some s') :
    s'.Tracked := by
  cases w with
  | rebuild =>
    obtain ⟨f, hf, rfl⟩ := map_eq_some_iff.mp hfin
    exact tracked_of_rebuild h ((h .rebuild).finish hf) rfl rfl
  | synonym =>
    obtain ⟨f, hf, rfl⟩ := map_eq_some_iff.mp hfin
    exact tracked_synonym h ((h .synonym).finish hf)
  | pagerank =>
    obtain ⟨f, hf, rfl⟩ := map_eq_some_iff.mp hfin
    exact tracked_pagerank h ((h .pagerank).finish hf)

theorem tracked_onDone {w : Work} (h : s.Tracked) (hi : (s.tasks w).phase i = .ended) :
    (s.onDone i w).Tracked := by
  cases w with
  | rebuild => exact tracked_of_rebuild h (tracked_onRebuildDone (h .rebuild) hi) rfl rfl
  | synonym => exact tracked_synonym h (tracked_onScheduledDone (h .synonym) hi)
  | pagerank => exact tracked_pagerank h (tracked_onScheduledDone (h .pagerank) hi)

/-- **An orderly step keeps the tasks tracked.** -/
theorem tracked_step {e : Event} (hord : Orderly s e) (h : s.Tracked)
    (hs : step s e = some s') : s'.Tracked := by
  cases e with
  | synonymEdgesWritten =>
    cases hs
    exact tracked_synonym h (tracked_request (h .synonym) hord)
  | defrefEdgesWritten =>
    cases hs
    exact tracked_pagerank h (tracked_request (h .pagerank) hord)
  | gc gcResult =>
    cases hs
    exact tracked_runCollectionGraphGc gcResult h hord
  | consume =>
    cases hs
    exact tracked_clearConsumed h
  | drain =>
    cases hs
    exact tracked_drain h hord
  | enriched i =>
    obtain ⟨-, hs⟩ := ite_none_right_eq_some.mp hs
    cases hs
    exact tracked_of_rebuild h (h .rebuild) rfl rfl
  | finish w i => exact tracked_finish h hs
  | callback w i =>
    obtain ⟨hi, hs⟩ := ite_none_right_eq_some.mp hs
    cases hs
    exact tracked_onDone h hi

end Loop

/-- **The background tasks are single-flight and lose no request** in every run in which no
request overtakes a callback and no mark is drained beside a rebuild. -/
theorem singleFlight_of_orderly {events : List Event} {s : MaintenanceLoop}
    (horderly : Along step Orderly .init events) (hrun : run step .init events = some s) :
    s.SingleFlight :=
  singleFlight_of_tracked
    (run_invariant_along (fun _ _ _ => tracked_step) horderly tracked_init hrun)

/-! ### Two runs -/

/-- Garbage is collected while a rebuild runs, and the mark of an enrichment is drained when the
rebuild that was asked for is over. -/
def orderly : List Event :=
  [.gc (some true), .synonymEdgesWritten, .enriched 0, .gc (some true), .finish .rebuild 0,
    .callback .rebuild 0, .finish .synonym 0, .callback .synonym 0, .finish .rebuild 1,
    .callback .rebuild 1, .drain, .finish .rebuild 2, .callback .rebuild 2, .gc none]

/-- Two rebuilds run one after the other, and a third one for the mark. -/
theorem singleFlight_of_orderly_orderly : ∃ s, run step .init orderly = some s ∧
    s.SingleFlight ∧ s.rebuildState.next = 3 := by
  obtain ⟨s, hs, hx⟩ : ∃ s ∈ run step .init orderly, s.rebuildState.next = 3 := by decide +kernel
  exact ⟨s, hs, singleFlight_of_orderly (by decide +kernel) hs, hx⟩

/-- A mark is drained beside a rebuild; a request overtakes the callback of a task, and the
callback removes the entry of the next one. -/
def overlapping : Work → List Event
  | .rebuild => [.gc (some true), .synonymEdgesWritten, .enriched 0, .drain]
  | .synonym =>
    [.synonymEdgesWritten, .finish .synonym 0, .synonymEdgesWritten, .callback .synonym 0,
      .synonymEdgesWritten]
  | .pagerank =>
    [.defrefEdgesWritten, .finish .pagerank 0, .defrefEdgesWritten, .callback .pagerank 0,
      .defrefEdgesWritten]

def overlap (f : Flight) : Bool :=
  decide (f.phase (f.next - 2) = .running ∧ f.phase (f.next - 1) = .running ∧ 2 ≤ f.next)

/-- **No kind of work is single-flight.** -/
theorem two_running : ¬ ∃ w, ∀ events s, run step .init events = some s →
    (s.tasks w).AtMostOne ∧ (s.tasks w).Served := by
  rintro ⟨w, h⟩
  obtain ⟨s, hs, hover⟩ : ∃ s ∈ run step .init (overlapping w), overlap (s.tasks w) = true := by
    cases w <;> decide +kernel
  obtain ⟨hfst, hsec, htwo⟩ := of_decide_eq_true hover
  have heq := (h _ s hs).1 _ _ hfst hsec
  omega

end ArchonSearch.Jobs.Rebuild
