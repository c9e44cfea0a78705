import Mathlib.Data.List.Sort

/-!
# The slot of the generations

One generation of the process may hold the slot, and the others wait for it in a heap, by the rank
of their kind and then by arrival. A request reserves a place and gets a future, which is completed
when the slot is its (`GenerationSlot.reserve`); a place is given up once and for all, be it the
slot or a place in the queue (`GenerationSlot.release`). A future may be cancelled while it waits,
and is passed over then.

Whatever is done with it, the slot is not free while there is a queue, the queue is in order, and
nobody has two places (`Sound`). A release leaves all the other places to those who have them
(`Sound.has_release`), and gives the slot to the first of the queue whose future is pending
(`Sound.passes`).
-/

namespace ArchonSearch.Descriptions

open Function List Option

variable {ι : Type}

/-! ### The slot -/

inductive Granted where
  | pending
  | done
  | cancelled
  deriving DecidableEq

/-- `cancel()` of a future, which does nothing to one that is done. -/
def Granted.cancel : Granted → Granted
  | .pending => .cancelled
  | granted => granted

structure Waiter (ι : Type) where
  (rank arrival : ℕ)
  granted : ι

def Waiter.Le (a b : Waiter ι) : Prop := a.rank < b.rank ∨ a.rank = b.rank ∧ a.arrival ≤ b.arrival

instance : DecidableRel (Waiter.Le (ι := ι)) := fun a b => by
  unfold Waiter.Le
  infer_instance

/-- `_GenerationSlot`, and the futures that it has made. The heap is the list of its entries in
the order in which `heappop` returns them. -/
structure GenerationSlot (ι : Type) where
  holder : Option ι := none
  waiting : List (Waiter ι) := []
  /-- The next number of `_arrival`. -/
  arrival : ℕ := 0
  granted : ι → Granted := fun _ => .pending

namespace GenerationSlot

/-- `is_full`. -/
def isFull (slot : GenerationSlot ι) (maxQueued : ℕ) : Bool :=
  slot.holder.isSome && decide (maxQueued ≤ slot.waiting.length)

variable [DecidableEq ι]

/-- `reserve`, for a request that has no future yet. -/
def reserve (slot : GenerationSlot ι) (i : ι) (rank : ℕ) : GenerationSlot ι :=
  if slot.holder = none then
    { slot with holder := some i, granted := update slot.granted i .done }
  else
    { slot with
      waiting := slot.waiting.orderedInsert Waiter.Le ⟨rank, slot.arrival, i⟩
      arrival := slot.arrival + 1
      granted := update slot.granted i .pending }

/-- The loop of `_pass_on`: the next holder, and the entries that are left. -/
def nextGranted (granted : ι → Granted) : List (Waiter ι) → Option ι × List (Waiter ι)
  | [] => (none, [])
  | entry :: waiting =>
    if granted entry.granted = .pending then (some entry.granted, waiting)
    else nextGranted granted waiting

/-- `_pass_on`. -/
def passOn (slot : GenerationSlot ι) : GenerationSlot ι :=
  match nextGranted slot.granted slot.waiting with
  | (none, waiting) => { slot with holder := none, waiting := waiting }
  | (some i, waiting) =>
    { slot with
      holder := some i
      waiting := waiting
      granted := update slot.granted i .done }

/-- `release`. -/
def release (slot : GenerationSlot ι) (i : ι) : GenerationSlot ι :=
  if slot.holder = some i then slot.passOn
  else
    let remaining := slot.waiting.filter fun entry => entry.granted ≠ i
    if remaining.length ≠ slot.waiting.length then
      { slot with
        waiting := remaining
        granted := update slot.granted i (slot.granted i).cancel }
    else slot

/-! ### Places -/

def Has (slot : GenerationSlot ι) (i : ι) : Prop :=
  slot.holder = some i ∨ ∃ entry ∈ slot.waiting, entry.granted = i

structure Sound (slot : GenerationSlot ι) : Prop where
  sorted : slot.waiting.Pairwise Waiter.Le
  nodup : (slot.waiting.map Waiter.granted).Nodup
  idle : slot.holder = none → slot.waiting = []
  done : ∀ i, slot.holder = some i → slot.granted i = .done
  waits : ∀ entry ∈ slot.waiting, slot.granted entry.granted ≠ .done

end GenerationSlot

theorem Waiter.le_refl (a : Waiter ι) : a.Le a := Or.inr ⟨rfl, le_rfl⟩

instance : Std.Total (Waiter.Le (ι := ι)) where
  total a b := by
    unfold Waiter.Le
    omega

instance : IsTrans (Waiter ι) Waiter.Le where
  trans a b c hab hbc := by
    unfold Waiter.Le at *
    omega

namespace GenerationSlot

/-- **The next holder** is the first whose future is pending, and those before it are passed
over. -/
theorem nextGranted_cases (granted : ι → Granted) (waiting : List (Waiter ι)) :
    (nextGranted granted waiting = (none, []) ∧
      ∀ entry ∈ waiting, granted entry.granted ≠ .pending) ∨
    ∃ passed entry rest, waiting = passed ++ entry :: rest ∧
      (∀ entry' ∈ passed, granted entry'.granted ≠ .pending) ∧
      granted entry.granted = .pending ∧
      nextGranted granted waiting = (some entry.granted, rest) := by
  induction waiting with
  | nil => exact Or.inl ⟨rfl, by simp⟩
  | cons entry waiting ih =>
    by_cases hpen : granted entry.granted = .pending
    · exact Or.inr ⟨[], entry, waiting, rfl, by simp, hpen, if_pos hpen⟩
    · have hx : nextGranted granted (entry :: waiting) = nextGranted granted waiting :=
        if_neg hpen
      rw [hx]
      rcases ih with ⟨hn, hall⟩ | ⟨passed, next, rest, rfl, hpas, hgran, hs⟩
      · exact Or.inl ⟨hn, forall_mem_cons.mpr ⟨hpen, hall⟩⟩
      · exact Or.inr ⟨entry :: passed, next, rest, rfl, forall_mem_cons.mpr ⟨hpen, hpas⟩, hgran, hs⟩

variable [DecidableEq ι] {slot : GenerationSlot ι} {i j : ι} {entry : Waiter ι}

omit [DecidableEq ι] in
theorem Sound.holder_ne (h : slot.Sound) (hent : entry ∈ slot.waiting) :
    slot.holder ≠ some entry.granted :=
  fun hho => h.waits entry hent (h.done _ hho)

/-- **What a release does**: it passes the slot on, or takes an entry from the queue, or does
nothing for who has no place. -/
theorem release_cases (slot : GenerationSlot ι) (i : ι) :
    (slot.holder = some i ∧ slot.release i = { slot with holder := none, waiting := [] } ∧
      ∀ entry ∈ slot.waiting, slot.granted entry.granted ≠ .pending) ∨
    (slot.holder = some i ∧ ∃ passed entry rest, slot.waiting = passed ++ entry :: rest ∧
      (∀ entry' ∈ passed, slot.granted entry'.granted ≠ .pending) ∧
      slot.granted entry.granted = .pending ∧
      slot.release i = { slot with
        holder := some entry.granted
        waiting := rest
        granted := update slot.granted entry.granted .done }) ∨
    (slot.holder ≠ some i ∧ (∃ entry ∈ slot.waiting, entry.granted = i) ∧
      slot.release i = { slot with
        waiting := slot.waiting.filter fun entry => entry.granted ≠ i
        granted := update slot.granted i (slot.granted i).cancel }) ∨
    (¬slot.Has i ∧ slot.release i = slot) := by
  by_cases hho : slot.holder = some i
  · have hrel : slot.release i = slot.passOn := if_pos hho
    rw [hrel, passOn]
    rcases nextGranted_cases slot.granted slot.waiting with ⟨hn, hall⟩ |
      ⟨passed, entry, rest, hwa, hpas, hpen, hs⟩
    · rw [hn]
      exact Or.inl ⟨hho, rfl, hall⟩
    · rw [hs]
      exact Or.inr (Or.inl ⟨hho, passed, entry, rest, hwa, hpas, hpen, rfl⟩)
  · by_cases hwt : ∃ entry ∈ slot.waiting, entry.granted = i
    · have hlen : (slot.waiting.filter fun entry => entry.granted ≠ i).length
          ≠ slot.waiting.length := by
        intro heq
        obtain ⟨entry, hent, hi⟩ := hwt
        have hall := length_filter_eq_length_iff.mp heq entry hent
        simp [hi] at hall
      refine Or.inr (Or.inr (Or.inl ⟨hho, hwt, ?_⟩))
      simp only [release, if_neg hho, if_pos hlen]
    · have hlen : (slot.waiting.filter fun entry => entry.granted ≠ i).length
          = slot.waiting.length := by
        refine length_filter_eq_length_iff.mpr fun entry hent => ?_
        simpa using fun hi => hwt ⟨entry, hent, hi⟩
      refine Or.inr (Or.inr (Or.inr ⟨fun hhas => hhas.elim hho hwt, ?_⟩))
      simp only [release, if_neg hho, hlen, ne_eq, not_true_eq_false, if_false]

omit [DecidableEq ι] in
theorem nodup_granted_of_sublist {waiting waiting' : List (Waiter ι)}
    (hsub : waiting'.Sublist waiting) (h : (waiting.map Waiter.granted).Nodup) :
    (waiting'.map Waiter.granted).Nodup :=
  h.sublist (hsub.map _)

/-- **A release keeps the slot sound.** -/
theorem Sound.release (h : slot.Sound) (i : ι) : (slot.release i).Sound := by
  rcases slot.release_cases i with ⟨-, heq, -⟩ |
      ⟨-, passed, entry, rest, hwa, -, hpen, heq⟩ |
    ⟨hho, ⟨entry, hent, rfl⟩, heq⟩ | ⟨-, heq⟩
  all_goals rw [heq]
  · exact ⟨.nil, .nil, fun _ => rfl, fun _ hn => (by cases hn), by simp⟩
  · have hsub : rest.Sublist slot.waiting := by
      rw [hwa]
      exact (sublist_cons_self _ _).trans (sublist_append_right _ _)
    refine ⟨h.sorted.sublist hsub, nodup_granted_of_sublist hsub h.nodup,
      fun hn => (by cases hn), fun j hj => ?_, fun other hoth => ?_⟩
    · cases hj
      simp
    · have hne : other.granted ≠ entry.granted := by
        have hnd := h.nodup
        rw [hwa, map_append, map_cons] at hnd
        have hnot := (nodup_cons.mp hnd.of_append_right).1
        exact fun hsa => hnot (hsa ▸ List.mem_map_of_mem hoth)
      simpa [update_of_ne hne] using h.waits other (hsub.subset hoth)
  · have hsub := filter_sublist (p := fun other => decide (other.granted ≠ entry.granted))
      (l := slot.waiting)
    refine ⟨h.sorted.sublist hsub, nodup_granted_of_sublist hsub h.nodup, fun hn => ?_,
      fun j hj => ?_, fun other hoth => ?_⟩
    · simp [h.idle hn]
    · have hne : j ≠ entry.granted := by
        rintro rfl
        exact hho hj
      simpa [update_of_ne hne] using h.done j hj
    · obtain ⟨hm, hne⟩ := mem_filter.mp hoth
      have hne : other.granted ≠ entry.granted := by simpa using hne
      simpa [update_of_ne hne] using h.waits other hm
  · exact h

theorem Sound.not_has_release (h : slot.Sound) (i : ι) : ¬(slot.release i).Has i := by
  rcases slot.release_cases i with ⟨-, heq, -⟩ |
    ⟨hho, passed, entry, rest, hwa, -, hpen, heq⟩ | ⟨hho, -, heq⟩ | ⟨hnot, heq⟩
  all_goals rw [heq]
  · simp [Has]
  · have hne (other : Waiter ι) (hoth : other ∈ slot.waiting) : other.granted ≠ i := by
      rintro rfl
      exact h.holder_ne hoth hho
    rintro (hsa | ⟨other, hoth, hsa⟩)
    · exact hne entry (by simp [hwa]) (some.inj hsa)
    · exact hne other (by simp [hwa, hoth]) hsa
  · rintro (hsa | ⟨other, hoth, hsa⟩)
    · exact hho hsa
    · simp [hsa] at hoth
  · exact hnot

theorem has_of_release (hhas : (slot.release i).Has j) : slot.Has j := by
  rcases slot.release_cases i with ⟨-, heq, -⟩ | ⟨-, passed, entry, rest, hwa, -, -, heq⟩ |
    ⟨-, -, heq⟩ | ⟨-, heq⟩
  all_goals rw [heq] at hhas
  · simp [Has] at hhas
  · rcases hhas with hho | ⟨other, hoth, rfl⟩
    · cases hho
      exact Or.inr ⟨entry, by simp [hwa], rfl⟩
    · exact Or.inr ⟨other, by simp [hwa, hoth], rfl⟩
  · rcases hhas with hho | ⟨other, hoth, rfl⟩
    · exact Or.inl hho
    · exact Or.inr ⟨other, (mem_filter.mp hoth).1, rfl⟩
  · exact hhas

/-- And nobody else loses one, unless the future has been cancelled. -/
theorem Sound.has_release (h : slot.Sound) (hj : j ≠ i) (hhas : slot.Has j)
    (hli : slot.granted j ≠ .cancelled) : (slot.release i).Has j := by
  have hpen {entry : Waiter ι} (hent : entry ∈ slot.waiting) (hsa : entry.granted = j) :
      slot.granted entry.granted = .pending := by
    have hd := h.waits entry hent
    subst hsa
    cases hnow : slot.granted entry.granted with
    | pending => rfl
    | done => exact absurd hnow hd
    | cancelled => exact absurd hnow hli
  rcases slot.release_cases i with ⟨hho, heq, hall⟩ |
    ⟨hho, passed, entry, rest, hwa, hpas, -, heq⟩ | ⟨-, -, heq⟩ | ⟨-, heq⟩
  all_goals rw [heq]
  · rcases hhas with hsa | ⟨entry, hent, hsa⟩
    · exact absurd (some.inj (hsa.symm.trans hho)) hj
    · exact absurd (hpen hent hsa) (hall entry hent)
  · rcases hhas with hsa | ⟨other, hoth, hsa⟩
    · exact absurd (some.inj (hsa.symm.trans hho)) hj
    · have hnow := hpen hoth hsa
      rw [hwa, mem_append, mem_cons] at hoth
      rcases hoth with hoth | rfl | hoth
      · exact absurd hnow (hpas other hoth)
      · exact Or.inl (congrArg some hsa)
      · exact Or.inr ⟨other, hoth, hsa⟩
  · rcases hhas with hsa | ⟨other, hoth, rfl⟩
    · exact Or.inl hsa
    · exact Or.inr ⟨other, mem_filter.mpr ⟨hoth, by simpa using hj⟩, rfl⟩
  · exact hhas

/-- The futures of the others stay as they are, but for the one that is granted the slot. -/
theorem granted_release (hj : j ≠ i) :
    (slot.release i).granted j = slot.granted j ∨
      slot.granted j = .pending ∧ (slot.release i).granted j = .done := by
  rcases slot.release_cases i with ⟨-, heq, -⟩ | ⟨-, passed, entry, rest, -, -, hpen, heq⟩ |
    ⟨-, -, heq⟩ | ⟨-, heq⟩
  all_goals rw [heq]
  · exact Or.inl rfl
  · by_cases hsa : j = entry.granted
    · subst hsa
      exact Or.inr ⟨hpen, by simp⟩
    · exact Or.inl (by simp [update_of_ne hsa])
  · exact Or.inl (by simp [update_of_ne hj])
  · exact Or.inl rfl

/-- The queue is left as it is, but for those who are out of it; and no number is taken. -/
theorem sublist_release (slot : GenerationSlot ι) (i : ι) :
    (slot.release i).waiting.Sublist slot.waiting ∧ (slot.release i).arrival = slot.arrival := by
  rcases slot.release_cases i with ⟨-, heq, -⟩ | ⟨-, passed, entry, rest, hwa, -, -, heq⟩ |
    ⟨-, -, heq⟩ | ⟨-, heq⟩
  all_goals rw [heq]
  · exact ⟨nil_sublist _, rfl⟩
  · refine ⟨?_, rfl⟩
    rw [hwa]
    exact (sublist_cons_self _ _).trans (sublist_append_right _ _)
  · exact ⟨filter_sublist, rfl⟩
  · exact ⟨List.Sublist.refl _, rfl⟩

theorem release_of_not_has (hnot : ¬slot.Has i) : slot.release i = slot := by
  rcases slot.release_cases i with ⟨hho, -⟩ | ⟨hho, -⟩ | ⟨-, hwt, -⟩ | ⟨-, heq⟩
  · exact absurd (Or.inl hho) hnot
  · exact absurd (Or.inl hho) hnot
  · exact absurd (Or.inr hwt) hnot
  · exact heq

/-- **The slot passes to the first of those who wait.** -/
theorem Sound.passes (h : slot.Sound) (hho : (slot.release i).holder = some j)
    (hne : slot.holder ≠ some j) :
    ∃ entry ∈ slot.waiting, entry.granted = j ∧ slot.granted j = .pending ∧
      ∀ entry' ∈ slot.waiting, slot.granted entry'.granted = .pending → entry.Le entry' := by
  rcases slot.release_cases i with ⟨-, heq, -⟩ |
    ⟨-, passed, entry, rest, hwa, hpas, hpen, heq⟩ | ⟨-, -, heq⟩ | ⟨-, heq⟩
  all_goals rw [heq] at hho
  · cases hho
  · cases hho
    refine ⟨entry, by simp [hwa], rfl, hpen, fun other hoth hnow => ?_⟩
    have hsort := h.sorted
    rw [hwa] at hsort hoth
    rcases mem_append.mp hoth with hoth | hoth
    · exact absurd hnow (hpas other hoth)
    · rcases mem_cons.mp hoth with rfl | hoth
      · exact Waiter.le_refl _
      · exact rel_of_pairwise_cons (pairwise_append.mp hsort).2.1 hoth
  · exact absurd hho hne
  · exact absurd hho hne

/-! ### Reservations and cancellations -/

/-- **A reservation keeps the slot sound.** -/
theorem Sound.reserve (h : slot.Sound) (hnot : ¬slot.Has i) (rank : ℕ) :
    (slot.reserve i rank).Sound := by
  have hne (entry : Waiter ι) (hent : entry ∈ slot.waiting) : entry.granted ≠ i :=
    fun heq => hnot (Or.inr ⟨entry, hent, heq⟩)
  by_cases hho : slot.holder = none
  · rw [GenerationSlot.reserve, if_pos hho]
    refine ⟨h.sorted, h.nodup, fun hn => (by cases hn), fun j hj => ?_, fun entry hent => ?_⟩
    · cases hj
      simp
    · simpa [update_of_ne (hne entry hent)] using h.waits entry hent
  · rw [GenerationSlot.reserve, if_neg hho]
    have hp := perm_orderedInsert Waiter.Le ⟨rank, slot.arrival, i⟩ slot.waiting
    refine ⟨h.sorted.orderedInsert _ _, ?_, fun hn => absurd hn hho, fun j hj => ?_,
      fun entry hent => ?_⟩
    · refine (hp.map Waiter.granted).nodup_iff.mpr (nodup_cons.mpr ⟨fun hm => ?_, h.nodup⟩)
      obtain ⟨entry, hent, heq⟩ := List.mem_map.mp hm
      exact hne entry hent heq
    · have hji : j ≠ i := by
        rintro rfl
        exact hnot (Or.inl hj)
      simpa [update_of_ne hji] using h.done j hj
    · rcases (mem_orderedInsert _).mp hent with rfl | hent
      · simp
      · simpa [update_of_ne (hne entry hent)] using h.waits entry hent

variable {rank : ℕ}

theorem Sound.has_reserve_iff (h : slot.Sound) :
    (slot.reserve i rank).Has j ↔ slot.Has j ∨ j = i := by
  by_cases hho : slot.holder = none
  · have hemp := h.idle hho
    simp [GenerationSlot.reserve, Has, hho, hemp, eq_comm]
  simp only [GenerationSlot.reserve, Has, if_neg hho, mem_orderedInsert]
  constructor
  · rintro (heq | ⟨entry, rfl | hent, rfl⟩)
    · exact Or.inl (Or.inl heq)
    · exact Or.inr rfl
    · exact Or.inl (Or.inr ⟨entry, hent, rfl⟩)
  · rintro ((heq | ⟨entry, hent, rfl⟩) | rfl)
    · exact Or.inl heq
    · exact Or.inr ⟨entry, Or.inr hent, rfl⟩
    · exact Or.inr ⟨_, Or.inl rfl, rfl⟩

theorem granted_reserve (slot : GenerationSlot ι) (i : ι) (rank : ℕ) :
    (slot.reserve i rank).granted i ≠ .cancelled ∧
      ∀ j, j ≠ i → (slot.reserve i rank).granted j = slot.granted j := by
  unfold GenerationSlot.reserve
  split_ifs <;> simp +contextual [update_of_ne]

/-- The slot goes to who reserves a place only if it is free. -/
theorem holder_reserve (hho : (slot.reserve i rank).holder = some j)
    (hne : slot.holder ≠ some j) : slot.holder = none ∧ j = i := by
  unfold GenerationSlot.reserve at hho
  split_ifs at hho with hn
  · exact ⟨hn, (some.inj hho).symm⟩
  · exact absurd hho hne

/-- Who waits after a reservation has waited before, or takes the next number. -/
theorem waiting_reserve
    (hent : entry ∈ (slot.reserve i rank).waiting) :
    (entry ∈ slot.waiting ∧ slot.arrival ≤ (slot.reserve i rank).arrival) ∨
      (entry = ⟨rank, slot.arrival, i⟩ ∧ slot.arrival < (slot.reserve i rank).arrival) := by
  unfold GenerationSlot.reserve at hent ⊢
  split_ifs at hent ⊢ with hho
  · exact Or.inl ⟨hent, le_rfl⟩
  · rcases (mem_orderedInsert _).mp hent with rfl | hent
    · exact Or.inr ⟨rfl, Nat.lt_succ_self _⟩
    · exact Or.inl ⟨hent, Nat.le_succ _⟩

/-- **The queue is bounded.** -/
theorem length_reserve {maxQueued : ℕ} (hroom : slot.waiting.length ≤ maxQueued)
    (hfull : slot.isFull maxQueued = false) :
    (slot.reserve i rank).waiting.length ≤ maxQueued := by
  unfold GenerationSlot.reserve
  split_ifs with hho
  · exact hroom
  · have hs : slot.holder.isSome = true := by
      cases hnow : slot.holder with
      | none => exact absurd hnow hho
      | some j => rfl
    simp only [isFull, hs, Bool.true_and, decide_eq_false_iff_not] at hfull
    rw [orderedInsert_length]
    omega

omit [DecidableEq ι] in
theorem Sound.cancel {granted : ι → Granted} (h : slot.Sound)
    (hgran : ∀ j, granted j = slot.granted j ∨ slot.granted j = .pending ∧ granted j = .cancelled) :
    { slot with granted := granted }.Sound := by
  refine ⟨h.sorted, h.nodup, h.idle, fun j hj => ?_, fun entry hent hd => ?_⟩
  · rcases hgran j with heq | ⟨hpen, -⟩
    · exact heq.trans (h.done j hj)
    · rw [h.done j hj] at hpen
      cases hpen
  · rcases hgran entry.granted with heq | ⟨-, hcand⟩
    · exact h.waits entry hent (heq.symm.trans hd)
    · have hnow : granted entry.granted = .done := hd
      rw [hcand] at hnow
      cases hnow

end GenerationSlot

end ArchonSearch.Descriptions
