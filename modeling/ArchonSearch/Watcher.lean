import ArchonSearch.Lib.Run

/-!
# Debouncing the watcher

`_DebounceHandler` starts a timer for each file event, in place of the one before, and a timer that
expires submits the callback. Its `_timer` should be the timer that is pending, so that the next
event and `cancel_all` find it (`State.Debounced`).

`_fire` reads the field after its timer has expired, and clears it if it is still what it has read.
An event may come before it reads: then it has read the timer of that event, and clears it from
view while it is pending. Everything is in order exactly as long as no `_fire` does so
(`debounced_iff`); where one does, a timer fires after `cancel_all` has returned
(`fires_after_cancel`).
-/

namespace ArchonSearch.Watcher

open Lib Function List Option

/-! ### Timers -/

/-- A timer, from its start to the end of its `_fire`. -/
inductive Phase where
  | unborn
  | pending
  | cancelled
  /-- It has expired, and its `_fire` has not read the field. -/
  | fired
  /-- `current_timer` was read. -/
  | read (current : Option ℕ)
  | submitted (current : Option ℕ)
  | ended
  deriving DecidableEq

/-- `_fire` is in progress. -/
def Phase.InProgress : Phase → Prop
  | .fired | .read _ | .submitted _ => True
  | _ => False

/-- The handler, its timers by their number, and what was done about the latest file event. -/
structure State where
  phase : ℕ → Phase := fun _ => .unborn
  count : ℕ := 0
  /-- `_timer`. -/
  timer : Option ℕ := none
  /-- After the latest file event a submission began, or `cancel_all` came. -/
  answered : Bool := true

inductive Event where
  /-- `on_any_event`, for a file. -/
  | fileEvent
  | expire (i : ℕ)
  | read (i : ℕ)
  | submit (i : ℕ)
  | clear (i : ℕ)
  | cancelAll
  deriving DecidableEq

def State.setPhase (s : State) (i : ℕ) (phase : Phase) : State :=
  { s with phase := update s.phase i phase }

@[simp] theorem setPhase_phase (s : State) (i : ℕ) (phase : Phase) :
    (s.setPhase i phase).phase = update s.phase i phase := rfl

/-- `Timer.cancel`, which does nothing to a timer that has expired. -/
def State.cancelTimer (s : State) : State :=
  match s.timer with
  | some i => if s.phase i = .pending then s.setPhase i .cancelled else s
  | none => s

def step (s : State) : Event → Option State
  | .fileEvent =>
    let cancelled := s.cancelTimer
    some { cancelled.setPhase s.count .pending with
      count := s.count + 1, timer := some s.count, answered := false }
  | .expire i => if s.phase i = .pending then some (s.setPhase i .fired) else none
  | .read i => if s.phase i = .fired then some (s.setPhase i (.read s.timer)) else none
  | .submit i =>
    match s.phase i with
    | .read current => some { s.setPhase i (.submitted current) with answered := true }
    | _ => none
  | .clear i =>
    match s.phase i with
    | .submitted current =>
      some { s.setPhase i .ended with timer := if s.timer = current then none else s.timer }
    | _ => none
  | .cancelAll => some { s.cancelTimer with timer := none, answered := true }

/-! ### In order -/

/-- A pending timer is in view, and no event is left unanswered. -/
structure State.Debounced (s : State) : Prop where
  quiet : (∀ i, s.phase i ≠ .pending ∧ ¬(s.phase i).InProgress) → s.answered = true
  inView : ∀ i, s.phase i = .pending → s.timer = some i

/-- The handler is in order all along, and no timer fires after `cancel_all` before the next
event. -/
def Debounces (es : List Event) : Prop :=
  (∀ before after t, es = before ++ after → run step {} before = some t → t.Debounced) ∧
    ∀ before after rest, es = before ++ .cancelAll :: (after ++ rest) → .fileEvent ∉ after →
      ∀ i, .expire i ∉ after

/-- A `_fire` that clears the field does not find a pending timer in it. -/
def KeepsInView (s : State) : Event → Prop
  | .clear i => ∀ k ∈ s.timer, s.phase i = .submitted (some k) → s.phase k ≠ .pending
  | _ => True

instance (s : State) (e : Event) : Decidable (KeepsInView s e) := by
  unfold KeepsInView
  split <;> infer_instance

/-! ### What a step keeps -/

variable {s t : State} {e : Event} {es : List Event} {i : ℕ}

theorem cancelTimer_cases (s : State) :
    s.cancelTimer = s ∧ (∀ i, s.timer = some i → s.phase i ≠ .pending) ∨
      ∃ i, s.timer = some i ∧ s.phase i = .pending ∧ s.cancelTimer = s.setPhase i .cancelled := by
  unfold State.cancelTimer
  rcases htim : s.timer with _ | i
  · exact Or.inl ⟨rfl, by simp⟩
  · by_cases hpen : s.phase i = .pending
    · exact Or.inr ⟨i, rfl, hpen, if_pos hpen⟩
    · refine Or.inl ⟨if_neg hpen, ?_⟩
      rintro k ⟨⟩
      exact hpen

/-- Nothing is pending after a cancel but what was out of view. -/
theorem pending_cancelTimer (h : s.cancelTimer.phase i = .pending) :
    s.phase i = .pending ∧ s.timer ≠ some i := by
  rcases cancelTimer_cases s with ⟨hsa, hnot⟩ | ⟨k, htim, -, hcan⟩
  · rw [hsa] at h
    exact ⟨h, fun htim => hnot i htim h⟩
  · rw [hcan] at h
    by_cases hi : i = k
    · subst hi
      simp [State.setPhase] at h
    · rw [setPhase_phase, update_of_ne hi] at h
      exact ⟨h, by rw [htim]; exact fun heq => hi (some.inj heq).symm⟩

theorem cancelTimer_of_ne (h : s.phase i ≠ .pending) : s.cancelTimer.phase i = s.phase i := by
  rcases cancelTimer_cases s with ⟨heq, -⟩ | ⟨k, -, hpen, hcan⟩
  · rw [heq]
  · have hi : i ≠ k := by
      rintro rfl
      exact h hpen
    rw [hcan, setPhase_phase, update_of_ne hi]

/-- The timer of the latest event comes to submit the callback, if that event is not answered. -/
def Latest (s : State) : Prop :=
  (∀ k, s.count ≤ k → s.phase k = .unborn) ∧
    (s.answered = true ∨ ∃ i < s.count, i + 1 = s.count ∧
      (s.phase i = .pending ∨ s.phase i = .fired ∨ ∃ current, s.phase i = .read current))

theorem Latest.setPhase (h : Latest s) {phase : Phase} {timer : Option ℕ} {answered : Bool}
    (hborn : s.phase i ≠ .unborn)
    (hon : phase = .fired ∨ (∃ current, phase = .read current) ∨ answered = true ∨
      ∃ current, s.phase i = .submitted current)
    (hansd : s.answered = true → answered = true) :
    Latest { s.setPhase i phase with timer := timer, answered := answered } := by
  obtain ⟨hunb, hlat⟩ := h
  refine ⟨fun k hk => ?_, ?_⟩
  · have hne : k ≠ i := by
      rintro rfl
      exact hborn (hunb k hk)
    exact (update_of_ne hne _ _).trans (hunb k hk)
  rcases hlat with hd | ⟨k, hlt, hcnt, hph⟩
  · exact Or.inl (hansd hd)
  by_cases hk : k = i
  · subst hk
    rcases hon with rfl | ⟨current, rfl⟩ | hnow | ⟨current, hsub⟩
    · exact Or.inr ⟨k, hlt, hcnt, Or.inr (Or.inl (update_self ..))⟩
    · exact Or.inr ⟨k, hlt, hcnt, Or.inr (Or.inr ⟨current, update_self ..⟩)⟩
    · exact Or.inl hnow
    · rw [hsub] at hph
      rcases hph with hph | hph | ⟨_, hph⟩ <;> cases hph
  · refine Or.inr ⟨k, hlt, hcnt, ?_⟩
    simpa only [State.setPhase, update_of_ne hk] using hph

/-- **An event is not forgotten**, whatever the order of the steps. -/
theorem Latest.step (h : Latest s) (hs : step s e = some t) : Latest t := by
  cases e with
  | fileEvent =>
    cases hs
    refine ⟨fun k hk => ?_, Or.inr ⟨s.count, Nat.lt_succ_self _, rfl, Or.inl ?_⟩⟩
    · have hunb := h.1 k (Nat.le_of_succ_le hk)
      have hne : k ≠ s.count := Nat.ne_of_gt hk
      simp only [setPhase_phase, update_of_ne hne]
      rw [cancelTimer_of_ne (by rw [hunb]; decide), hunb]
    · exact update_self ..
  | expire i =>
    obtain ⟨hpen, rfl⟩ := of_guard hs
    exact h.setPhase (by rw [hpen]; decide) (Or.inl rfl) id
  | read i =>
    obtain ⟨hfir, rfl⟩ := of_guard hs
    exact h.setPhase (by rw [hfir]; decide) (Or.inr (Or.inl ⟨_, rfl⟩)) id
  | submit i =>
    simp only [Watcher.step] at hs
    split at hs <;> cases hs
    rename_i current hrd
    exact h.setPhase (by rw [hrd]; exact Phase.noConfusion) (Or.inr (Or.inr (Or.inl rfl)))
      fun _ => rfl
  | clear i =>
    simp only [Watcher.step] at hs
    split at hs <;> cases hs
    rename_i current hsub
    exact h.setPhase (by rw [hsub]; exact Phase.noConfusion) (Or.inr (Or.inr (Or.inr ⟨_, hsub⟩))) id
  | cancelAll =>
    cases hs
    refine ⟨fun k hk => ?_, Or.inl rfl⟩
    have hunb : s.phase k = .unborn := h.1 k (by
      rcases cancelTimer_cases s with ⟨heq, -⟩ | ⟨_, -, -, hcan⟩
      · rwa [heq] at hk
      · rwa [hcan] at hk)
    rw [cancelTimer_of_ne (by rw [hunb]; decide), hunb]

/-- Nothing becomes pending but the timer of a file event. -/
theorem pending_step (hs : step s e = some t) (hi : t.phase i = .pending) :
    (s.phase i = .pending ∧ (e = .fileEvent ∨ e = .cancelAll → s.timer ≠ some i)) ∨
      e = .fileEvent ∧ t.timer = some i := by
  have hoth {k : ℕ} {phase : Phase} (hph : phase ≠ .pending)
      (hi : update s.phase k phase i = .pending) : s.phase i = .pending := by
    by_cases hik : i = k
    · rw [hik, update_self] at hi
      exact absurd hi hph
    · rwa [update_of_ne hik] at hi
  cases e with
  | fileEvent =>
    cases hs
    by_cases hw : i = s.count
    · exact Or.inr ⟨rfl, congrArg some hw.symm⟩
    · simp only [setPhase_phase, update_of_ne hw] at hi
      exact Or.inl ((pending_cancelTimer hi).imp_right fun hnot _ => hnot)
  | expire k =>
    obtain ⟨-, rfl⟩ := of_guard hs
    exact Or.inl ⟨hoth (by decide) hi, by simp⟩
  | read k =>
    obtain ⟨-, rfl⟩ := of_guard hs
    exact Or.inl ⟨hoth Phase.noConfusion hi, by simp⟩
  | submit k =>
    simp only [Watcher.step] at hs
    split at hs <;> cases hs
    exact Or.inl ⟨hoth Phase.noConfusion hi, by simp⟩
  | clear k =>
    simp only [Watcher.step] at hs
    split at hs <;> cases hs
    exact Or.inl ⟨hoth (by decide) hi, by simp⟩
  | cancelAll =>
    cases hs
    exact Or.inl ((pending_cancelTimer hi).imp_right fun hnot _ => hnot)

/-- The field is changed by events, by `cancel_all`, and by a `_fire` that ends. -/
theorem timer_step (hs : step s e = some t) :
    t.timer = s.timer ∨ e = .fileEvent ∨ e = .cancelAll ∨ t.timer = none ∧
      ∃ i, e = .clear i ∧ s.phase i = .submitted s.timer := by
  cases e with
  | fileEvent => exact Or.inr (Or.inl rfl)
  | cancelAll => exact Or.inr (Or.inr (Or.inl rfl))
  | expire i | read i =>
    simp only [Watcher.step] at hs
    split_ifs at hs
    exact Or.inl (some.inj hs ▸ rfl)
  | submit i =>
    simp only [Watcher.step] at hs
    split at hs
    · exact Or.inl (some.inj hs ▸ rfl)
    · cases hs
  | clear i =>
    simp only [Watcher.step] at hs
    split at hs <;> cases hs
    rename_i current hsub
    by_cases heq : s.timer = current
    · exact Or.inr (Or.inr (Or.inr ⟨if_pos heq, i, rfl, heq ▸ hsub⟩))
    · exact Or.inl (if_neg heq)

/-- **What is pending stays in view**, as long as it is not cleared. -/
theorem inView_step (h : ∀ i, s.phase i = .pending → s.timer = some i)
    (hkp : KeepsInView s e) (hs : step s e = some t) :
    ∀ i, t.phase i = .pending → t.timer = some i := by
  intro i hi
  rcases pending_step hs hi with ⟨hpen, hnot⟩ | ⟨-, htim⟩
  · have htim := h i hpen
    rcases timer_step hs with heq | hevent | hcan | ⟨-, k, rfl, hsub⟩
    · rw [heq, htim]
    · exact absurd htim (hnot (Or.inl hevent))
    · exact absurd htim (hnot (Or.inr hcan))
    · exact absurd hpen (hkp i htim (htim ▸ hsub))
  · exact htim

/-- Where nothing is pending nothing fires before the next event. -/
theorem expire_notMem {after : List Event} (hn : ∀ i, s.phase i ≠ .pending)
    (hq : .fileEvent ∉ after) (hr : run step s after = some t) : .expire i ∉ after := by
  induction after generalizing s with
  | nil => exact not_mem_nil
  | cons e after ih =>
    obtain ⟨s', hs, hr⟩ := (run_cons_eq_some step).mp hr
    rw [mem_cons, not_or] at hq ⊢
    refine ⟨?_, ih (fun k hk => ?_) hq.2 hr⟩
    · rintro rfl
      simp only [Watcher.step, if_neg (hn i)] at hs
      cases hs
    · rcases pending_step hs hk with ⟨hpen, -⟩ | ⟨rfl, -⟩
      · exact hn k hpen
      · exact hq.1 rfl

/-! ### The handler -/

/-- **The handler is in order all along exactly if it never clears a pending timer from view.** -/
theorem debounces_iff (hrun : run step {} es = some s) :
    Debounces es ↔ Along step KeepsInView {} es := by
  constructor
  · rintro ⟨hdeb, -⟩
    refine along_iff.mpr fun before e after t hes hbef => ?_
    cases e with
    | clear i =>
      intro k htim hsub hpen
      have hs : step t (.clear i) =
          some { t.setPhase i .ended with timer := none } := by
        simp [Watcher.step, hsub, mem_def.mp htim]
      have hx : run step {} (before ++ [.clear i]) = some _ :=
        (run_concat_eq_some step).mpr ⟨t, hbef, hs⟩
      have hne : k ≠ i := by
        rintro rfl
        rw [hsub] at hpen
        cases hpen
      have hlost := (hdeb (before ++ [.clear i]) after _ (by simp [hes]) hx).inView k
        ((update_of_ne hne _ _).trans hpen)
      cases hlost
    | fileEvent | expire _ | read _ | submit _ | cancelAll => trivial
  · intro hkp
    have hview {before after : List Event} {t : State} (hes : es = before ++ after)
        (hbef : run step {} before = some t) : ∀ i, t.phase i = .pending → t.timer = some i :=
      run_invariant_along (I := fun s => ∀ i, s.phase i = .pending → s.timer = some i)
        (fun _ _ _ hC h hs => inView_step h hC hs) (hes ▸ hkp).of_append
        (fun _ (hi : Phase.unborn = .pending) => nomatch hi) hbef
    refine ⟨fun before after t hes hbef => ⟨fun hq => ?_, hview hes hbef⟩,
      fun before after rest hes hq i => ?_⟩
    · have hlat : Latest t :=
        run_invariant (fun _ _ _ h hs => h.step hs) ⟨fun _ _ => rfl, Or.inl rfl⟩ hbef
      refine hlat.2.resolve_right ?_
      rintro ⟨i, -, -, hpen | hfir | ⟨current, hrd⟩⟩
      · exact (hq i).1 hpen
      · exact (hq i).2 (by rw [hfir]; trivial)
      · exact (hq i).2 (by rw [hrd]; trivial)
    · rw [hes, run_append, bind_eq_some_iff] at hrun
      obtain ⟨t, hbef, hrun⟩ := hrun
      obtain ⟨t', hcan, hrun⟩ := (run_cons_eq_some step).mp hrun
      rw [run_append, bind_eq_some_iff] at hrun
      obtain ⟨t'', hrun, -⟩ := hrun
      refine expire_notMem (fun k hk => ?_) hq hrun
      rcases pending_step hcan hk with ⟨hpen, hnot⟩ | ⟨hevent, -⟩
      · exact hnot (Or.inr rfl) (hview hes hbef k hpen)
      · cases hevent

def twoEvents : List Event :=
  [.fileEvent, .expire 0, .read 0, .fileEvent, .submit 0, .clear 0, .expire 1, .read 1, .submit 1,
    .clear 1, .fileEvent, .cancelAll]

theorem debounces_iff_twoEvents : ∃ s, run step {} twoEvents = some s ∧ Debounces twoEvents := by
  have hkp : Along step KeepsInView {} twoEvents := by decide +kernel
  exact ⟨_, rfl, (debounces_iff rfl).mpr hkp⟩

/-- **A timer fires after `cancel_all`**: the event came after the first timer had expired and
before its `_fire` read the field. -/
theorem fires_after_cancel : ¬∀ es s, run step {} es = some s → Debounces es := by
  intro h
  have hdeb := h [.fileEvent, .expire 0, .fileEvent, .read 0, .submit 0, .clear 0,
    .cancelAll, .expire 1] _ rfl
  exact hdeb.2 [.fileEvent, .expire 0, .fileEvent, .read 0, .submit 0, .clear 0]
    [.expire 1] [] rfl (by decide) 1 (by decide)

end ArchonSearch.Watcher
