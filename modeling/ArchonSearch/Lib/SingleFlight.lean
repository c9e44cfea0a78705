import Mathlib.Data.Nat.Notation
import Mathlib.Logic.Function.Basic

/-!
# One background task at a time

Requests for some piece of work come while it is being done. Instead of a second task the request
leaves a mark on the entry of the first, and when that task is over its callback starts the next
one. The callback runs a while after the task has ended, so a task that has ended is not settled
yet; and the entry is one cell that everybody writes, so that it may come to be about another task
than the callback.

Every request is counted, and a task has seen those that were made before it was started. The
invariant `Flight.Tracked` says that the entry is about the one task that is not settled, and that
this task has seen all requests, unless the entry is marked. It is kept by a task that is started
when none is unsettled (`Flight.Tracked.spawn`), by a mark (`Flight.Tracked.mark`), and by a
callback that finds its own entry (`Flight.Tracked.settle`).
-/

namespace ArchonSearch.Lib

open Function Option

/-! ### Tasks -/

inductive TaskPhase where
  | absent
  | running
  | ended
  | settled
  deriving DecidableEq

structure TaskEntry where
  task : ℕ
  (pending completed : Bool)

structure Flight where
  entry : Option TaskEntry
  phase : ℕ → TaskPhase
  seen : ℕ → ℕ
  (next requests : ℕ)

namespace Flight

def init : Flight := ⟨none, fun _ => .absent, fun _ => 0, 0, 0⟩

variable (f : Flight) (i : ℕ)

def note : Flight := { f with requests := f.requests + 1 }

def spawn : Flight where
  entry := some ⟨f.next, false, false⟩
  phase := update f.phase f.next .running
  seen := update f.seen f.next f.requests
  next := f.next + 1
  requests := f.requests

def setEntry (entry : Option TaskEntry) : Flight := { f with entry := entry }

def finish : Option Flight :=
  if f.phase i = .running then some { f with phase := update f.phase i .ended } else none

def settled : Flight := { f with phase := update f.phase i .settled }

/-! ### What has to hold -/

def Outstanding : Prop := f.phase i = .running ∨ f.phase i = .ended

def Still : Prop := ∀ i < f.next, ¬ f.Outstanding i

def NoneEnded : Prop := ∀ i < f.next, f.phase i ≠ .ended

def AtMostOne : Prop := ∀ i j, f.phase i = .running → f.phase j = .running → i = j

/-- Where every task is settled one of them has seen all requests, if there were any. -/
def Served : Prop :=
  f.Still → f.requests = 0 ∨ ∃ i, f.phase i = .settled ∧ f.seen i = f.requests

instance : Decidable (f.Outstanding i) := inferInstanceAs (Decidable (_ ∨ _))

instance : Decidable f.Still := inferInstanceAs (Decidable (∀ i < f.next, ¬ _))

instance : Decidable f.NoneEnded := inferInstanceAs (Decidable (∀ i < f.next, _ ≠ _))

/-- **The invariant.** -/
structure Tracked : Prop where
  fresh : ∀ i, f.next ≤ i → f.phase i = .absent
  entry : ∀ i, f.Outstanding i → ∃ e, f.entry = some e ∧ e.task = i ∧ e.completed = false
  current : ∀ e, f.entry = some e → f.Outstanding e.task → e.pending = false →
    f.seen e.task = f.requests
  served : f.Served

variable {f} {i} {e : TaskEntry}

theorem Outstanding.lt (hfr : ∀ i, f.next ≤ i → f.phase i = .absent) (h : f.Outstanding i) :
    i < f.next := by
  by_contra hge
  have habs := hfr i (Nat.le_of_not_lt hge)
  rcases h with h | h
  · rw [habs] at h
    cases h
  · rw [habs] at h
    cases h

theorem Tracked.not_outstanding (h : f.Tracked) (hstill : f.Still) : ¬ f.Outstanding i :=
  fun hi => hstill i (hi.lt h.fresh) hi

/-- The entry is about every task that is not settled. -/
theorem Tracked.task_eq (h : f.Tracked) (he : f.entry = some e) (hi : f.Outstanding i) :
    e.task = i ∧ e.completed = false := by
  obtain ⟨e', he', htask, hcom⟩ := h.entry i hi
  obtain rfl := some.inj (he.symm.trans he')
  exact ⟨htask, hcom⟩

/-- **No two tasks run.** -/
theorem Tracked.atMostOne (h : f.Tracked) : f.AtMostOne := by
  intro i j hi hj
  obtain ⟨e, he, rfl, -⟩ := h.entry i (Or.inl hi)
  exact (h.task_eq he (Or.inl hj)).1

theorem tracked_init : init.Tracked where
  fresh _ _ := rfl
  entry i hi := by
    rcases hi with hi | hi
    · cases hi
    · cases hi
  current e he := by cases he
  served _ := Or.inl rfl

/-! ### What is done -/

theorem outstanding_spawn : f.spawn.Outstanding i ↔ i = f.next ∨ f.Outstanding i := by
  unfold Outstanding spawn
  by_cases hi : i = f.next
  · simp [hi]
  · simp [hi]

/-- **A task is started** where every task is settled. -/
theorem Tracked.spawn (hfr : ∀ i, f.next ≤ i → f.phase i = .absent) (hstill : f.Still) :
    f.spawn.Tracked := by
  have hn (i : ℕ) : ¬ f.Outstanding i := fun hi => hstill i (hi.lt hfr) hi
  refine ⟨fun i hi => ?_, fun i hi => ?_, fun e he _ _ => ?_, fun hstill' => ?_⟩
  · have hne : i ≠ f.next := Nat.ne_of_gt hi
    exact (update_of_ne hne _ _).trans (hfr i (Nat.le_of_succ_le hi))
  · obtain rfl := (outstanding_spawn.mp hi).resolve_right (hn i)
    exact ⟨_, rfl, rfl, rfl⟩
  · cases he
    exact update_self _ _ _
  · exact absurd (outstanding_spawn.mpr (Or.inl rfl)) (hstill' f.next (Nat.lt_succ_self _))

/-- **A request marks the entry** of a task that is not settled. -/
theorem Tracked.mark (h : f.Tracked) (he : f.entry = some e) (hi : f.Outstanding e.task) :
    (f.note.setEntry (some { e with pending := true })).Tracked where
  fresh := h.fresh
  entry i hi' := by
    obtain ⟨rfl, hcom⟩ := h.task_eq he hi'
    exact ⟨_, rfl, rfl, hcom⟩
  current e' he' _ hpen := by
    cases he'
    cases hpen
  served hstill := absurd hi (h.not_outstanding hstill)

theorem outstanding_ended (hi : f.phase i = .running) (j : ℕ) :
    Outstanding { f with phase := update f.phase i .ended } j ↔ f.Outstanding j := by
  unfold Outstanding
  by_cases hj : j = i
  · simp [hj, hi]
  · simp [hj]

/-- **A task ends**, and its entry stays as it is. -/
theorem Tracked.finish {f' : Flight} (h : f.Tracked) (hfin : f.finish i = some f') :
    f'.Tracked := by
  unfold Flight.finish at hfin
  split at hfin
  · next hi =>
    cases hfin
    have hlt : i < f.next := Outstanding.lt h.fresh (Or.inl hi)
    refine ⟨fun j hj => ?_, fun j hj => h.entry j ((outstanding_ended hi j).mp hj), fun e he ho =>
      h.current e he ((outstanding_ended hi _).mp ho), fun hstill => ?_⟩
    · have hne : j ≠ i := fun hji => absurd (hji ▸ hlt) (Nat.not_lt.mpr hj)
      exact (update_of_ne hne _ _).trans (h.fresh j hj)
    · exact absurd ((outstanding_ended hi i).mpr (Or.inl hi)) (hstill i hlt)
  · cases hfin

theorem fresh_settled (h : f.Tracked) (hi : f.Outstanding i) (j : ℕ) (hj : f.next ≤ j) :
    (f.settled i).phase j = .absent := by
  have hne : j ≠ i := fun h' => absurd (hi.lt h.fresh) (Nat.not_lt.mpr (h' ▸ hj))
  exact (update_of_ne hne _ _).trans (h.fresh j hj)

/-- The task that was not settled was the only one. -/
theorem still_settled (h : f.Tracked) (hi : f.Outstanding i) : (f.settled i).Still := by
  intro j hj ho
  by_cases hji : j = i
  · have hph : (f.settled i).phase j = .settled := by
      rw [hji]
      exact update_self _ _ _
    rcases ho with ho | ho
    · cases hph.symm.trans ho
    · cases hph.symm.trans ho
  · have hph : (f.settled i).phase j = f.phase j := update_of_ne hji _ _
    have ho' : f.Outstanding j := by
      unfold Outstanding at ho ⊢
      rwa [hph] at ho
    obtain ⟨e, he, rfl, -⟩ := h.entry i hi
    exact hji (h.task_eq he ho').1.symm

/-- **A callback** that finds its entry, unmarked, leaves another one or none. -/
theorem Tracked.settle (h : f.Tracked) (he : f.entry = some e) (hi : f.Outstanding e.task)
    (hpen : e.pending = false) (entry : Option TaskEntry) :
    ((f.settled e.task).setEntry entry).Tracked := by
  have hstill := still_settled h hi
  have hn (j : ℕ) : ¬ ((f.settled e.task).setEntry entry).Outstanding j := fun hj =>
    hstill j (Outstanding.lt (fresh_settled h hi) hj) hj
  refine ⟨fresh_settled h hi, fun j hj => absurd hj (hn j), fun e' _ ho => absurd ho (hn _),
    fun _ => Or.inr ⟨e.task, update_self _ _ _, ?_⟩⟩
  exact h.current e he hi hpen

theorem Tracked.consume (h : f.Tracked) (he : f.entry = some e)
    (hcom : e.completed = true) : (f.setEntry none).Tracked where
  fresh := h.fresh
  entry i hi := by
    have hnot := (h.task_eq he hi).2
    rw [hcom] at hnot
    cases hnot
  current e' he' := by cases he'
  served := h.served

end Flight

end ArchonSearch.Lib
