import Mathlib.Order.BooleanAlgebra.Set
import ArchonSearch.Lib.AsyncLock
import ArchonSearch.Lib.Run

/-!
# The lock of a collection

`SearchStore` keeps one `asyncio.Lock` per collection in a map. `lock_for` creates the entry when
there is none, `discard_lock` deletes it again when the collection is gone, so that names that come
and go do not fill the map. What makes two different lock objects of one collection harmless is that
an entry is deleted only while nobody holds the lock *and nobody waits for it*: every caller that
still has to do with a lock object finds its own object in the map (`Locks.Current`).

The callers are the passages through `lock_for(c)` and `acquire`, with no suspension in between, up
to the `release`; a task may make several. A timeout is a cancellation of the task.

The result is `Locks.critical_section_exclusive`: in every state that any interleaving leads to, at
most one caller is inside the critical section of a collection.
-/

namespace ArchonSearch.Store

open Lib Function Option

inductive LockPc (C : Type*) where
  /-- Not between `lock_for` and `release`. -/
  | outside
  /-- Suspended in `acquire` of this lock object, which `lock_for` returned for this
  collection. -/
  | waiting (collection : C) (lock : ℕ)
  /-- `acquire` has returned. -/
  | inside (collection : C) (lock : ℕ)

inductive LockEvent (ι C : Type*) where
  /-- `lock_for(c)` by a caller that does not queue on it, to ask whether it is
  `locked()`. -/
  | lookup : C → LockEvent ι C
  /-- `lock_for(c)` and `acquire()`, up to where it suspends or returns. -/
  | acquire : ι → C → LockEvent ι C
  /-- The task of a caller suspended in `acquire` is cancelled or times out. -/
  | cancel : ι → LockEvent ι C
  /-- The event loop resumes a caller suspended in `acquire`. -/
  | resume : ι → LockEvent ι C
  /-- `release()`, at the end of the block or when it raises. -/
  | release : ι → LockEvent ι C
  /-- `discard_lock(c)`, by anybody. -/
  | discard : C → LockEvent ι C

structure Locks (ι C : Type*) where
  /-- `_collection_locks`: the lock object of a collection. -/
  collectionLocks : C → Option ℕ
  lock : ℕ → Lock ι
  created : ℕ
  pc : ι → LockPc C

namespace Locks

variable {ι C : Type*}

def init : Locks ι C := ⟨fun _ => none, fun _ => .new, 0, fun _ => .outside⟩

/-- The caller `i` is inside the critical section of `c`. -/
def Inside (s : Locks ι C) (i : ι) (c : C) : Prop := ∃ l, s.pc i = .inside c l

def setLock [DecidableEq ι] (s : Locks ι C) (l : ℕ) (o : Lock ι) (i : ι) (pc : LockPc C) :
    Locks ι C :=
  { s with lock := update s.lock l o, pc := update s.pc i pc }

section Step

variable [DecidableEq C]

/-- `lock_for`: the lock object of the collection, created if there is none. -/
def lockFor (s : Locks ι C) (c : C) : Locks ι C × ℕ :=
  match s.collectionLocks c with
  | some l => (s, l)
  | none =>
    ({ s with
        collectionLocks := update s.collectionLocks c (some s.created)
        lock := update s.lock s.created .new
        created := s.created + 1 }, s.created)

/-- `discard_lock`. -/
def discardLock (s : Locks ι C) (c : C) : Locks ι C :=
  match s.collectionLocks c with
  | none => s
  | some l =>
    if !(s.lock l).locked && (s.lock l).waiters.isEmpty then
      { s with collectionLocks := update s.collectionLocks c none }
    else s

variable [DecidableEq ι]

def step (s : Locks ι C) : LockEvent ι C → Option (Locks ι C)
  | .lookup c => some (s.lockFor c).1
  | .acquire i c =>
    match s.pc i with
    | .outside =>
      let (s', l) := s.lockFor c
      let (o, returned) := (s'.lock l).acquire i
      some (s'.setLock l o i (if returned then .inside c l else .waiting c l))
    | .waiting _ _ | .inside _ _ => none
  | .cancel i =>
    match s.pc i with
    | .waiting c l => some (s.setLock l ((s.lock l).cancel i) i (.waiting c l))
    | .outside | .inside _ _ => none
  | .resume i =>
    match s.pc i with
    | .waiting c l =>
      ((s.lock l).resume i).map fun (o, returned) =>
        s.setLock l o i (if returned then .inside c l else .outside)
    | .outside | .inside _ _ => none
  | .release i =>
    match s.pc i with
    | .inside _ l => some (s.setLock l (s.lock l).release i .outside)
    | .outside | .waiting _ _ => none
  | .discard c => some (s.discardLock c)

end Step

/-! ### Every caller has to do with the lock object in the map -/

/-- The callers that stand at `f c l` with a lock object `l`. -/
def callers (s : Locks ι C) (f : C → ℕ → LockPc C) (l : ℕ) : Set ι := {i | ∃ c, s.pc i = f c l}

/-- **The invariant.** Every lock object agrees with its callers, and every caller
that waits for a lock object or holds it finds that object in the map. -/
structure Current (s : Locks ι C) : Prop where
  sound : ∀ l, (s.lock l).Sound (s.callers .waiting l) (s.callers .inside l)
  waiting_current : ∀ i c l, s.pc i = .waiting c l → s.collectionLocks c = some l
  inside_current : ∀ i c l, s.pc i = .inside c l → s.collectionLocks c = some l
  created : ∀ c l, s.collectionLocks c = some l → l < s.created

theorem current_init : Current (init : Locks ι C) where
  sound l := by simpa [callers, init] using Lock.sound_new
  waiting_current i c l h := by cases h
  inside_current i c l h := by cases h
  created c l h := by cases h

/-- In a state that satisfies the invariant a critical section has one caller. -/
theorem Current.inside_unique {s : Locks ι C} (h : Current s) {c : C} {i j : ι}
    (hi : s.Inside i c) (hj : s.Inside j c) : i = j := by
  obtain ⟨l, hi⟩ := hi
  obtain ⟨l', hj⟩ := hj
  obtain rfl : l = l' := some.inj
    ((h.inside_current i c l hi).symm.trans (h.inside_current j c l' hj))
  exact (h.sound l).unique ⟨c, hi⟩ ⟨c, hj⟩

theorem notMem_callers {s : Locks ι C} {f : C → ℕ → LockPc C} {l : ℕ} {i : ι} {pc : LockPc C}
    (hi : s.pc i = pc) (hf : ∀ d, f d l ≠ pc) : i ∉ s.callers f l := by
  rintro ⟨d, hd⟩
  exact hf d (hd.symm.trans hi)

section SetLock

variable [DecidableEq ι] {s : Locks ι C} {f : C → ℕ → LockPc C} {l : ℕ} {o : Lock ι} {i : ι}
  {pc : LockPc C}

/-- The caller that has moved on to `f c l` is one of the callers there. -/
theorem callers_setLock_of_eq {c : C} (hpc : pc = f c l) :
    (s.setLock l o i pc).callers f l = insert i (s.callers f l) := by
  ext j
  by_cases hj : j = i
  · subst hj
    have hm : j ∈ (s.setLock l o j pc).callers f l := ⟨c, by simp [Locks.setLock, hpc]⟩
    simp [hm]
  · simp [callers, Locks.setLock, hj]

/-- The caller that has moved on to somewhere else is not. -/
theorem callers_setLock_of_ne {l' : ℕ} (hpc : ∀ c, pc ≠ f c l') :
    (s.setLock l o i pc).callers f l' = s.callers f l' \ {i} := by
  ext j
  by_cases hj : j = i
  · subst hj
    simpa [callers, Locks.setLock] using hpc
  · simp [callers, Locks.setLock, hj]

/-- **One caller moves on with its lock object.** All that is left to know of the
step is what it does to that object and to its callers. -/
theorem Current.setLock (h : Current s)
    (hi : ∀ d l', s.pc i = .waiting d l' ∨ s.pc i = .inside d l' → l' = l)
    (hpc : ∀ d l', pc = .waiting d l' ∨ pc = .inside d l' → l' = l ∧ s.collectionLocks d = some l)
    (ho : o.Sound ((s.setLock l o i pc).callers .waiting l)
      ((s.setLock l o i pc).callers .inside l)) :
    Current (s.setLock l o i pc) := by
  refine ⟨?_, ?_, ?_, h.created⟩
  · intro l'
    by_cases hl : l' = l
    · subst hl
      simpa [Locks.setLock] using ho
    -- the callers of every other object are the ones they were
    have heq : ∀ f : C → ℕ → LockPc C, (∀ d, pc ≠ f d l') → (∀ d, s.pc i ≠ f d l') →
        (s.setLock l o i pc).callers f l' = s.callers f l' := by
      intro f hf hf'
      rw [callers_setLock_of_ne hf]
      refine Set.sdiff_singleton_eq_self ?_
      rintro ⟨d, hd⟩
      exact hf' d hd
    rw [heq .waiting (fun d hd => hl (hpc d l' (.inl hd)).1) (fun d hd => hl (hi d l' (.inl hd))),
      heq .inside (fun d hd => hl (hpc d l' (.inr hd)).1) (fun d hd => hl (hi d l' (.inr hd)))]
    simpa [Locks.setLock, hl] using h.sound l'
  · intro j d l' hj
    by_cases hji : j = i
    · subst hji
      simp only [Locks.setLock, update_self] at hj
      obtain ⟨rfl, hd⟩ := hpc d l' (.inl hj)
      exact hd
    · simp only [Locks.setLock, update_of_ne hji] at hj
      exact h.waiting_current j d l' hj
  · intro j d l' hj
    by_cases hji : j = i
    · subst hji
      simp only [Locks.setLock, update_self] at hj
      obtain ⟨rfl, hd⟩ := hpc d l' (.inr hj)
      exact hd
    · simp only [Locks.setLock, update_of_ne hji] at hj
      exact h.inside_current j d l' hj

end SetLock

/-! ### The steps -/

section StepLemmas

variable [DecidableEq C] {s : Locks ι C}

/-- `lock_for` changes no caller. -/
@[simp] theorem lockFor_pc (s : Locks ι C) (c : C) : (s.lockFor c).1.pc = s.pc := by
  unfold lockFor
  split <;> rfl

/-- The object `lock_for` returns is in the map. -/
theorem lockFor_current (s : Locks ι C) (c : C) :
    (s.lockFor c).1.collectionLocks c = some (s.lockFor c).2 := by
  unfold lockFor
  split
  next h => exact h
  next => simp

/-- **`lock_for` keeps the invariant**: a new object has no caller, and no caller
can be waiting for another object of the collection. -/
theorem Current.lockFor (h : Current s) (c : C) : Current (s.lockFor c).1 := by
  unfold Locks.lockFor
  split
  next => exact h
  next hn =>
    have hoth : ∀ {d : C} {l : ℕ}, s.collectionLocks d = some l →
        update s.collectionLocks c (some s.created) d = some l := by
      intro d l hd
      have hne : d ≠ c := by
        rintro rfl
        rw [hn] at hd
        cases hd
      rwa [update_of_ne hne]
    refine ⟨?_, fun i d l hi => hoth (h.waiting_current i d l hi),
      fun i d l hi => hoth (h.inside_current i d l hi), ?_⟩
    · intro l
      by_cases hl : l = s.created
      · subst hl
        have hwa : s.callers .waiting s.created = ∅ := by
          rw [Set.eq_empty_iff_forall_notMem]
          rintro i ⟨d, hi⟩
          exact absurd (h.created d _ (h.waiting_current i d _ hi)) (lt_irrefl _)
        have hins : s.callers .inside s.created = ∅ := by
          rw [Set.eq_empty_iff_forall_notMem]
          rintro i ⟨d, hi⟩
          exact absurd (h.created d _ (h.inside_current i d _ hi)) (lt_irrefl _)
        change (update s.lock s.created Lock.new s.created).Sound
          (s.callers .waiting s.created) (s.callers .inside s.created)
        rw [update_self, hwa, hins]
        exact Lock.sound_new
      · simpa [callers, hl] using h.sound l
    · intro d l hd
      by_cases hdc : d = c
      · subst hdc
        simp only [update_self, some.injEq] at hd
        simp only
        omega
      · simp only [update_of_ne hdc] at hd
        exact Nat.lt_succ_of_lt (h.created d l hd)

/-- **`discard_lock` keeps the invariant**: the object it takes out of the map has
no caller. -/
theorem Current.discardLock (h : Current s) (c : C) : Current (s.discardLock c) := by
  unfold Locks.discardLock
  split
  next => exact h
  next l hl =>
    split
    next hidle =>
      rw [Bool.and_eq_true, Bool.not_eq_true', List.isEmpty_iff] at hidle
      obtain ⟨hwa, hins⟩ := (h.sound l).idle hidle.1 hidle.2
      have hoth : ∀ {d : C} {l' : ℕ}, l' ≠ l → s.collectionLocks d = some l' →
          update s.collectionLocks c none d = some l' := by
        intro d l' hne hd
        have hdc : d ≠ c := by
          rintro rfl
          exact hne (some.inj (hd.symm.trans hl))
        rwa [update_of_ne hdc]
      refine ⟨h.sound, ?_, ?_, ?_⟩
      · intro i d l' hi
        refine hoth ?_ (h.waiting_current i d l' hi)
        rintro rfl
        exact Set.eq_empty_iff_forall_notMem.mp hwa i ⟨d, hi⟩
      · intro i d l' hi
        refine hoth ?_ (h.inside_current i d l' hi)
        rintro rfl
        exact Set.eq_empty_iff_forall_notMem.mp hins i ⟨d, hi⟩
      · intro d l' hd
        by_cases hdc : d = c
        · subst hdc
          simp at hd
        · simp only [update_of_ne hdc] at hd
          exact h.created d l' hd
    next => exact h

variable [DecidableEq ι]

/-- **`lock_for` and `acquire` keep the invariant.** -/
theorem Current.acquire (h : Current s) {i : ι} (hi : s.pc i = .outside) (c : C) :
    Current ((s.lockFor c).1.setLock (s.lockFor c).2
      (((s.lockFor c).1.lock (s.lockFor c).2).acquire i).1 i
      (if (((s.lockFor c).1.lock (s.lockFor c).2).acquire i).2 then .inside c (s.lockFor c).2
        else .waiting c (s.lockFor c).2)) := by
  have hcur := h.lockFor c
  have hmap := lockFor_current s c
  have hpc : (s.lockFor c).1.pc i = .outside := by simpa using hi
  generalize (s.lockFor c).1 = s' at hcur hmap hpc ⊢
  generalize (s.lockFor c).2 = l at hmap ⊢
  refine hcur.setLock ?_ ?_ ?_
  · intro d l' hd
    rw [hpc] at hd
    rcases hd with hd | hd <;> cases hd
  · intro d l' hd
    split at hd <;> rcases hd with hd | hd <;> cases hd <;> exact ⟨rfl, hmap⟩
  · cases ha : ((s'.lock l).acquire i).2 with
    | true =>
      rw [if_pos rfl, callers_setLock_of_ne (by simp), callers_setLock_of_eq rfl,
        Set.sdiff_singleton_eq_self (notMem_callers hpc (by simp))]
      exact (hcur.sound l).acquire_now ha
    | false =>
      rw [if_neg (by simp), callers_setLock_of_eq rfl, callers_setLock_of_ne (by simp),
        Set.sdiff_singleton_eq_self (notMem_callers hpc (by simp))]
      exact (hcur.sound l).acquire_wait ha

/-- **Every step keeps the invariant.** -/
theorem Current.step (h : Current s) {s' : Locks ι C} {e : LockEvent ι C}
    (he : s.step e = some s') : Current s' := by
  cases e with
  | lookup c =>
    cases he
    exact h.lockFor c
  | acquire i c =>
    simp only [Locks.step] at he
    split at he
    next hi =>
      cases he
      exact h.acquire hi c
    all_goals cases he
  | cancel i =>
    simp only [Locks.step] at he
    split at he
    next c l hi =>
      cases he
      refine h.setLock ?_ ?_ ?_
      · intro d l' hd
        rw [hi] at hd
        rcases hd with hd | hd <;> cases hd
        rfl
      · intro d l' hd
        rcases hd with hd | hd <;> cases hd
        exact ⟨rfl, h.waiting_current i c l hi⟩
      · have hm : i ∈ s.callers .waiting l := ⟨c, hi⟩
        rw [callers_setLock_of_eq rfl, callers_setLock_of_ne (by simp),
          Set.insert_eq_of_mem hm, Set.sdiff_singleton_eq_self (notMem_callers hi (by simp))]
        exact (h.sound l).cancel i
    all_goals cases he
  | resume i =>
    simp only [Locks.step] at he
    split at he
    next c l hi =>
      obtain ⟨⟨o, b⟩, ho, rfl⟩ := map_eq_some_iff.mp he
      have hsd := (h.sound l).resume ho
      refine h.setLock ?_ ?_ ?_
      · intro d l' hd
        rw [hi] at hd
        rcases hd with hd | hd <;> cases hd
        rfl
      · intro d l' hd
        split at hd <;> rcases hd with hd | hd <;> cases hd
        exact ⟨rfl, h.waiting_current i c l hi⟩
      · cases b with
        | true =>
          rw [if_pos rfl, callers_setLock_of_ne (by simp), callers_setLock_of_eq rfl]
          exact hsd
        | false =>
          have hins : i ∉ s.callers .inside l := notMem_callers hi (by simp)
          rw [if_neg (by simp), callers_setLock_of_ne (by simp), callers_setLock_of_ne (by simp),
            Set.sdiff_singleton_eq_self hins]
          exact hsd
    all_goals cases he
  | release i =>
    simp only [Locks.step] at he
    split at he
    next c l hi =>
      cases he
      refine h.setLock ?_ ?_ ?_
      · intro d l' hd
        rw [hi] at hd
        rcases hd with hd | hd <;> cases hd
        rfl
      · intro d l' hd
        rcases hd with hd | hd <;> cases hd
      · have honly : s.callers .inside l \ {i} = ∅ := by
          rw [Set.sdiff_eq_empty]
          intro j hj
          exact (h.sound l).unique hj ⟨c, hi⟩
        have hwa : i ∉ s.callers .waiting l := notMem_callers hi (by simp)
        rw [callers_setLock_of_ne (by simp), callers_setLock_of_ne (by simp), honly,
          Set.sdiff_singleton_eq_self hwa]
        exact (h.sound l).release
    all_goals cases he
  | discard c =>
    cases he
    exact h.discardLock c

end StepLemmas

/-! ### Mutual exclusion -/

variable [DecidableEq C] [DecidableEq ι]

/-- **At most one caller is inside the critical section of a collection**, after
every interleaving of acquisitions, timeouts, cancellations, releases and
discards. -/
theorem critical_section_exclusive {es : List (LockEvent ι C)} {s : Locks ι C}
    (hrun : run step init es = some s) {c : C} {i j : ι} (hi : s.Inside i c)
    (hj : s.Inside j c) : i = j := by
  have hcur : Current s :=
    run_invariant (fun _ _ _ h he => Current.step h he) current_init hrun
  exact hcur.inside_unique hi hj

/-- A caller holds the lock while two others queue up for it, one of which times
out. Everybody discards the entry on leaving. -/
def handOver : List (LockEvent ℕ Bool) :=
  [.acquire 0 true, .acquire 1 true, .discard true, .release 0, .discard true, .acquire 2 true,
    .cancel 2, .resume 1, .release 1, .discard true, .resume 2, .discard true, .acquire 3 true]

/-- The waiters get the object they queued on, and only the last discard deletes
it. -/
theorem critical_section_exclusive_handOver :
    ∃ s : Locks ℕ Bool, run step init handOver = some s ∧ s.created = 2 ∧
      ∀ i, s.Inside i true ↔ i = 3 := by
  refine ⟨_, rfl, rfl, fun i => ⟨fun hi => ?_, ?_⟩⟩
  · have hr : run step init handOver = some _ := rfl
    exact critical_section_exclusive hr hi ⟨1, rfl⟩
  · rintro rfl
    exact ⟨1, rfl⟩

end Locks

end ArchonSearch.Store
