import ArchonSearch.Descriptions.Invariant

/-!
# The failed overlay

A run that failed, and whose failure the store did not take, leaves in memory the version that it
took before it read the row. As long as that version is the current one, and no run is in flight,
readers see the collection as failed (`World.overlayStatus`).

A run that settles without asking for a text, since there is nothing to do at its turn, and a run
that is cancelled say nothing about the description, and leave that memory alone. Those aside, the
overlay is truthful both ways (`overlayStatus_isTruthful`). What carries this is that the version
that is remembered is never ahead of the changes that the run has read (`Remembers`).
-/

namespace ArchonSearch.Descriptions

open Lib Async Function Option

variable {ι : Type} {n : ℕ} {τ : Type}

/-! ### What a reader sees -/

/-- `DescriptionStatus`. -/
inductive DescriptionStatus where
  | ok
  | failed
  | pending
  deriving DecidableEq

def DescriptionStoredStatus.toStatus : DescriptionStoredStatus → DescriptionStatus
  | .ok => .ok
  | .failed => .failed

/-- `overlay_status`. -/
def World.overlayStatus (w : World ι n τ) (stored : Option DescriptionStoredStatus) :
    Option DescriptionStatus :=
  if w.inFlight.isSome then some .pending
  else if w.unstoredFailure = some w.version then some .failed
  else stored.map DescriptionStoredStatus.toStatus

/-- The run has ended without a stored verdict, and was neither cancelled nor spared asking for
a text: it failed, or it asked and was not cancelled. -/
def Ended.IsAttempt (x : Ended ι) : Bool :=
  !x.wrote && (decide (x.result = .failed) || (x.asked && decide (x.result ≠ .shuttingDown)))

def World.latestAttempt (w : World ι n τ) : Option (Ended ι) := w.ended.find? Ended.IsAttempt

/-! ### What is remembered -/

structure SameFailure (k k' : Know n τ) : Prop where
  remembered : k'.remembered = k.remembered
  took : k'.took = k.took
  fresh : k.fresh = true → k'.fresh = true
  verdict : k.verdict ≠ some .failed → k'.verdict ≠ some .failed

structure Remembers (w : World ι n τ) (know : ι → Know n τ) : Prop where
  finished : ∀ x ∈ w.ended, (know x.run).finished = true
  untaken : ∀ j, (know j).took = false → w.jobVersion j = none
  fresh : ∀ j, (know j).remembered = true → (know j).fresh = true
  verdict : ∀ j, (know j).verdict ≠ some .failed
  order : ∀ x ∈ w.ended, ∀ j v u, w.inFlight = some j → w.jobVersion x.run = some v →
    w.jobVersion j = some u → v ≤ u
  memory : ∀ v, w.unstoredFailure = some v → v = w.changes →
    (∃ j, w.inFlight = some j ∧ (know j).remembered = true) ∨
      ∃ x, w.latestAttempt = some x ∧ x.result = .failed ∧ w.started x.run ≠ none ∧
        w.readAt x.run = w.changes
  current : ∀ j, w.inFlight = some j → (know j).remembered = true →
    w.jobVersion j = some w.version → w.unstoredFailure = some w.version
  recalled : ∀ x, w.latestAttempt = some x → x.result = .failed →
    w.jobVersion x.run = some w.version → w.unstoredFailure = some w.version

variable {row : Option (CollectionMeta n τ)}

theorem remembers_init :
    Remembers (World.init row : World ι n τ) fun _ => { call := none } := by
  constructor
  · rintro x ⟨⟩
  · exact fun _ _ => rfl
  · rintro j ⟨⟩
  · rintro j ⟨⟩
  · rintro x ⟨⟩
  · rintro v ⟨⟩
  · rintro j ⟨⟩
  · rintro x ⟨⟩

variable {x : Ended ι}

theorem mem_of_latestAttempt {w : World ι n τ} (h : w.latestAttempt = some x) :
    x ∈ w.ended :=
  List.mem_of_find?_eq_some h

variable [DecidableEq ι] {i : ι} {w w' : World ι n τ} {know : ι → Know n τ}

omit [DecidableEq ι] in
theorem Remembers.ne_of_mem (h : Remembers w know) (hfin : (know i).finished = false)
    (hx : x ∈ w.ended) : x.run ≠ i := by
  rintro rfl
  rw [h.finished x hx] at hfin
  cases hfin

variable {k : Know n τ}

/-- What one task learns does not touch what is known of all the others. -/
theorem forall_update {P : ι → Know n τ → Prop} (h : ∀ j, P j (know j))
    (hi : P i (know i) → P i k) (j : ι) : P j (update know i k j) := by
  by_cases hj : j = i
  · subst hj
    rw [update_self]
    exact hi (h j)
  · rw [update_of_ne hj]
    exact h j

/-- An operation of somebody who goes on, and that leaves what is remembered alone. -/
theorem Remembers.frame (h : Remembers w know) (hw : w.Sound)
    (hfin : (know i).finished = false) (hk : SameFailure (know i) k)
    (hunst : w'.unstoredFailure = w.unstoredFailure) (hjob : w'.jobVersion = w.jobVersion)
    (hflt : w'.inFlight = w.inFlight) (he : w'.ended = w.ended)
    (hver : w.version ≤ w'.version) (hchg : w.changes ≤ w'.changes)
    (hreads : ∀ j, j ≠ i → w'.started j = w.started j ∧ w'.readAt j = w.readAt j) :
    Remembers w' (update know i k) := by
  have hatt : w'.latestAttempt = w.latestAttempt := by
    simp only [World.latestAttempt, he]
  have heq {j : ι} (hcur : w.jobVersion j = some w'.version) : w'.version = w.version :=
    (hw.jobVersion j _ hcur).antisymm hver
  have hknow (j : ι) : (update know i k j).remembered = (know j).remembered :=
    forall_update (P := fun j k => k.remembered = (know j).remembered) (fun _ => rfl)
      (fun _ => hk.remembered) j
  refine ⟨?_, ?_, ?_, ?_, ?_, ?_, ?_, ?_⟩
  · intro x hx
    rw [he] at hx
    rw [update_of_ne (h.ne_of_mem hfin hx)]
    exact h.finished x hx
  · rw [hjob]
    exact forall_update (P := fun j k => k.took = false → w.jobVersion j = none) h.untaken
      fun hunt htook => hunt (hk.took ▸ htook)
  · exact forall_update (P := fun _ k => k.remembered = true → k.fresh = true) h.fresh
      fun hfr hrem => hk.fresh (hfr (hk.remembered ▸ hrem))
  · exact forall_update (P := fun _ k => k.verdict ≠ some .failed) h.verdict hk.verdict
  · intro x hx j v u
    rw [he] at hx
    rw [hflt, hjob]
    exact h.order x hx j v u
  · intro v hv hcur
    rw [hunst] at hv
    have hle : v ≤ w.changes := (hw.unstored v hv).trans (Nat.le_add_right _ _)
    have hv' : v = w.changes := hle.antisymm (hchg.trans_eq hcur.symm)
    rcases h.memory v hv hv' with ⟨j, hj, hrem⟩ | ⟨x, hx, hfa, hsta, hrd⟩
    · exact Or.inl ⟨j, hflt.trans hj, (hknow j).trans hrem⟩
    · obtain ⟨hsta', hrd'⟩ :=
        hreads x.run (h.ne_of_mem hfin (mem_of_latestAttempt hx))
      refine Or.inr ⟨x, hatt.trans hx, hfa, hsta' ▸ hsta, ?_⟩
      rw [hrd', hrd, ← hv', hcur]
  · intro j hj hrem hcur
    rw [hjob] at hcur
    have hver' := heq hcur
    rw [hver'] at hcur ⊢
    rw [hunst]
    exact h.current j (hflt ▸ hj) (hknow j ▸ hrem) hcur
  · intro x hx hfa hcur
    rw [hjob] at hcur
    have hver' := heq hcur
    rw [hver'] at hcur ⊢
    rw [hunst]
    exact h.recalled x (hatt ▸ hx) hfa hcur

section
omit [DecidableEq ι]

theorem verdictOver_ne_failed [DecidableEq τ] {e : ExpectedState τ} :
    verdictOver e row ≠ some .failed := by
  unfold verdictOver
  split
  · simp
  · split_ifs <;> simp

theorem verdictOfGone_ne_failed :
    verdictOfGone row ≠ some .failed := by
  cases row <;> simp [verdictOfGone]

/-- The verdict of a guard, added to what there was. -/
theorem or_bind_ne_failed {verdict : Option GenerationResult}
    {expects : Option (ExpectedState τ)} {f : ExpectedState τ → Option GenerationResult}
    (hf : ∀ e, f e ≠ some .failed) (h : verdict ≠ some .failed) :
    verdict.or (expects.bind f) ≠ some .failed := by
  cases verdict with
  | some r => simpa using h
  | none =>
    cases expects with
    | none => simp
    | some e => simpa using hf e

/-- Only a version that is taken, and a failure that is remembered, matter. -/
theorem sameFailure_learn [DecidableEq τ] (k : Know n τ) {op : Op n τ}
    {r : Except Raised (Ans op)} (htake : op ≠ .takeVersion)
    (hrem : op ≠ .rememberUnstoredFailure) : SameFailure k (learn k op r) := by
  unfold learn
  split
  all_goals first
    | exact absurd rfl htake
    | exact absurd rfl hrem
    | exact ⟨rfl, rfl, id, id⟩
    | exact ⟨rfl, rfl, fun _ => rfl, id⟩
    | exact ⟨rfl, rfl, id, or_bind_ne_failed fun _ => verdictOfGone_ne_failed⟩
    | exact ⟨rfl, rfl, id, or_bind_ne_failed fun _ => verdictOver_ne_failed⟩

end

/-! ### One operation -/

theorem Remembers.tookVersion (h : Remembers w know) (hw : w.Sound)
    (hfin : (know i).finished = false) (hrem : (know i).remembered = false) :
    Remembers { w with jobVersion := update w.jobVersion i (some w.version) }
      (update know i { know i with took := true, fresh := false }) := by
  have hne {x : Ended ι} (hx : x ∈ w.ended) := h.ne_of_mem hfin hx
  refine ⟨?_, ?_, ?_, ?_, ?_, ?_, ?_, ?_⟩
  · intro x hx
    rw [update_of_ne (hne hx)]
    exact h.finished x hx
  · intro j
    by_cases hj : j = i
    · subst hj
      simp
    · simpa [update_of_ne hj] using h.untaken j
  · refine forall_update (P := fun _ k => k.remembered = true → k.fresh = true) h.fresh
      fun _ htrue => ?_
    rw [hrem] at htrue
    cases htrue
  · exact forall_update (P := fun _ k => k.verdict ≠ some .failed) h.verdict id
  · intro x hx j v u hj hv hu
    simp only [update_of_ne (hne hx)] at hv
    by_cases hji : j = i
    · subst hji
      simp only [update_self, some.injEq] at hu
      exact hu ▸ hw.jobVersion x.run v hv
    · simp only [update_of_ne hji] at hu
      exact h.order x hx j v u hj hv hu
  · intro v hv hcur
    rcases h.memory v hv hcur with ⟨j, hj, htrue⟩ | hatt
    · have hji : j ≠ i := by
        rintro rfl
        rw [hrem] at htrue
        cases htrue
      exact Or.inl ⟨j, hj, by rwa [update_of_ne hji]⟩
    · exact Or.inr hatt
  · intro j hj htrue hcur
    have hji : j ≠ i := by
      rintro rfl
      simp [hrem] at htrue
    simp only [update_of_ne hji] at htrue hcur
    exact h.current j hj htrue hcur
  · intro x hx hfa hcur
    simp only [update_of_ne (hne (mem_of_latestAttempt hx))] at hcur
    exact h.recalled x hx hfa hcur

theorem Remembers.remembered (h : Remembers w know) (hw : w.Sound) (hi : Tied w i (know i))
    (hfin : (know i).finished = false) (hfr : (know i).fresh = true) :
    Remembers (w.remember i) (update know i { know i with remembered := true }) := by
  obtain ⟨u, hu, hsta, -⟩ := hi.fresh hfr
  have hflt := (hi.inFlight (hw.isRun i hsta)).mp hfin
  have hunst : (w.remember i).unstoredFailure = some u := by
    simp [World.remember, hu]
  refine ⟨?_, ?_, ?_, ?_, h.order, ?_, ?_, ?_⟩
  · intro x hx
    rw [update_of_ne (h.ne_of_mem hfin hx)]
    exact h.finished x hx
  · exact forall_update (P := fun j k => k.took = false → w.jobVersion j = none) h.untaken id
  · exact forall_update (P := fun _ k => k.remembered = true → k.fresh = true) h.fresh
      fun _ _ => hfr
  · exact forall_update (P := fun _ k => k.verdict ≠ some .failed) h.verdict id
  · exact fun v _ _ => Or.inl ⟨i, hflt, by simp⟩
  · intro j hj _ hcur
    obtain rfl : i = j := some.inj (hflt.symm.trans hj)
    exact hunst.trans (hu.symm.trans hcur)
  · intro x hx _ hcur
    have hle := h.order x (mem_of_latestAttempt hx) i _ u hflt hcur hu
    have heq : u = w.version := (hw.jobVersion i u hu).antisymm hle
    exact hunst.trans (congrArg some heq)

omit [DecidableEq ι] in
/-- An attempt has failed and remembers it, or the guard has refused it. -/
theorem Tied.attempt {result : GenerationResult} (hi : Tied w i k)
    (hst : MaySettle k result) (hver : k.verdict ≠ some .failed)
    (hatt : Ended.IsAttempt ⟨i, result, w.asked i, w.wrote i⟩ = true) :
    k.wrote = false ∧
      (result = .failed ∧ k.remembered = true ∨ result ≠ .failed ∧ k.verdict ≠ none) := by
  simp only [Ended.IsAttempt, hi.wrote, hi.asked, Bool.and_eq_true, Bool.or_eq_true,
    Bool.not_eq_true', decide_eq_true_iff] at hatt
  obtain ⟨hwrote, hcs⟩ := hatt
  refine ⟨hwrote, ?_⟩
  cases hn : k.verdict with
  | some refused =>
    refine Or.inr ⟨?_, by simp⟩
    rw [hst.refused refused hn]
    rintro rfl
    exact hver hn
  | none =>
    have hfr := hst.free hn
    have hrem (hfa : result = .failed) : k.remembered = true :=
      (hfr.failed hfa).resolve_right (by simp [hwrote])
    rcases hcs with hfa | ⟨hask, hr⟩
    · exact Or.inl ⟨hfa, hrem hfa⟩
    · rcases hfr.asked hask with hfa | hgen | hshut
      · exact Or.inl ⟨hfa, hrem hfa⟩
      · have htrue := hfr.generated hgen
        rw [hwrote] at htrue
        cases htrue
      · exact absurd hshut hr

omit [DecidableEq ι] in
/-- What is remembered and up to date is not older than what the run in flight has read. -/
theorem World.Sound.readAt_eq {v : ℕ} (hw : w.Sound) (hflt : w.inFlight = some i)
    (hsta : w.started i ≠ none) (hv : w.unstoredFailure = some v) (hcur : v = w.changes) :
    w.readAt i = w.changes :=
  (hw.readAt i).antisymm (hcur ▸ hw.later i v hflt hsta hv)

theorem Remembers.ended (h : Remembers w know) (hw : w.Sound) (hi : Tied w i (know i))
    (hfin : (know i).finished = false) (hr : IsRun (know i).call)
    {settlement : GenerationSettlement} (hst : MaySettle (know i) settlement.result) :
    Remembers (w.finish i settlement) (update know i { know i with finished := true }) := by
  have hflt := hi.inFlight_eq hr hfin
  have hatt := hi.attempt hst (h.verdict i)
  have hlat : (w.finish i settlement).latestAttempt =
      if Ended.IsAttempt ⟨i, settlement.result, w.asked i, w.wrote i⟩ then
        some ⟨i, settlement.result, w.asked i, w.wrote i⟩
      else w.latestAttempt := by
    simp only [World.latestAttempt, World.finish, List.find?_cons]
    split <;> simp [*]
  refine ⟨?_, ?_, ?_, ?_, fun _ _ _ _ _ hj => (by cases hj), ?_, fun _ hj => (by cases hj), ?_⟩
  · intro x hx
    rcases List.mem_cons.mp hx with rfl | hx
    · simp
    · rw [update_of_ne (h.ne_of_mem hfin hx)]
      exact h.finished x hx
  · exact forall_update (P := fun j k => k.took = false → w.jobVersion j = none) h.untaken id
  · exact forall_update (P := fun _ k => k.remembered = true → k.fresh = true) h.fresh id
  · exact forall_update (P := fun _ k => k.verdict ≠ some .failed) h.verdict id
  · intro v hv hcur
    refine Or.inr ?_
    rw [hlat]
    have hrd (hsta : w.started i ≠ none) : w.readAt i = w.changes :=
      hw.readAt_eq hflt hsta hv hcur
    split_ifs with hnew
    · obtain ⟨-, ⟨hfa, hrem⟩ | ⟨-, href⟩⟩ := hatt hnew
      · obtain ⟨-, -, hsta, -⟩ := hi.fresh (h.fresh i hrem)
        exact ⟨_, rfl, hfa, hsta, hrd hsta⟩
      · obtain ⟨hsta, hlt⟩ := hi.verdict href
        exact absurd (hrd hsta) hlt.ne
    · rcases h.memory v hv hcur with ⟨j, hj, hrem⟩ | hold
      · -- the run in flight has failed, so it is an attempt, unless it has stored that
        obtain rfl : i = j := some.inj (hflt.symm.trans hj)
        obtain ⟨-, -, hsta, -⟩ := hi.fresh (h.fresh i hrem)
        have hwrote : w.wrote i = true := by
          have hfa := hst.remembered hrem
          simpa [Ended.IsAttempt, hfa] using hnew
        exact absurd (hrd hsta) (hi.wroteAt (hi.wrote ▸ hwrote) hsta).ne
      · exact hold
  · intro x hx hfa hcur
    rw [hlat] at hx
    split_ifs at hx with hnew
    · cases hx
      obtain ⟨-, ⟨-, hrem⟩ | ⟨hne, -⟩⟩ := hatt hnew
      · exact h.current i hflt hrem hcur
      · exact absurd hfa hne
    · exact h.recalled x hx hfa hcur

theorem Remembers.start {call : Call n τ} (h : Remembers w know) (hi : Tied w i (know i))
    (hunc : w.call i = none) (hflt : IsRun (some call) → w.inFlight = none) :
    Remembers (w.accept i call) (update know i (.start call)) := by
  obtain ⟨hknow, hsta⟩ := hi.unstarted hunc
  have hfin : (know i).finished = false := by rw [hknow]
  have hinFlight {j : ι} (hj : (w.accept i call).inFlight = some j) :
      j = i ∧ w.jobVersion i = none ∨ w.inFlight = some j := by
    simp only [World.accept] at hj
    split_ifs at hj with hr
    · exact Or.inl ⟨(some.inj hj).symm, h.untaken i (by rw [hknow])⟩
    · exact Or.inr hj
  have heq : SameFailure (know i) (.start call) := by
    rw [hknow]
    exact ⟨rfl, rfl, id, id⟩
  refine ⟨?_, ?_, ?_, ?_, ?_, ?_, ?_, h.recalled⟩
  · intro x hx
    rw [update_of_ne (h.ne_of_mem hfin hx)]
    exact h.finished x hx
  · exact forall_update (P := fun j k => k.took = false → w.jobVersion j = none) h.untaken
      fun hunt htook => hunt (heq.took ▸ htook)
  · exact forall_update (P := fun _ k => k.remembered = true → k.fresh = true) h.fresh
      fun hfr hrem => heq.fresh (hfr (heq.remembered ▸ hrem))
  · exact forall_update (P := fun _ k => k.verdict ≠ some .failed) h.verdict heq.verdict
  · intro x hx j v u hj hv hu
    rcases hinFlight hj with ⟨rfl, hn⟩ | hj
    · exact absurd hu (by simp [World.accept, hn])
    · exact h.order x hx j v u hj hv hu
  · intro v hv hcur
    rcases h.memory v hv hcur with ⟨j, hj, hrem⟩ | hold
    · have hne : j ≠ i := by
        rintro rfl
        rw [hknow] at hrem
        cases hrem
      refine Or.inl ⟨j, ?_, by rwa [update_of_ne hne]⟩
      simp only [World.accept]
      split_ifs with hr
      · rw [hflt hr] at hj
        cases hj
      · exact hj
    · exact Or.inr hold
  · intro j hj hrem hcur
    have hne : j ≠ i := by
      rintro rfl
      simp [Know.start] at hrem
    rw [update_of_ne hne] at hrem
    rcases hinFlight hj with ⟨rfl, -⟩ | hj
    · exact absurd rfl hne
    · exact h.current j hj hrem hcur

omit [DecidableEq ι] in
theorem Remembers.forget (h : Remembers w know) : Remembers w.forget know := by
  have hk (hv : w.unstoredFailure = some w.version) :
      w.forget.unstoredFailure = some w.version := by
    simp [World.forget, hv]
  refine { h with memory := ?_, current := ?_, recalled := ?_ }
  · exact fun v hv => h.memory v (filter_eq_some_iff.mp hv).1
  · exact fun j hj hrem hcur => hk (h.current j hj hrem hcur)
  · exact fun x hx hfa hcur => hk (h.recalled x hx hfa hcur)

/-! ### Runs of events -/

variable [DecidableEq τ] {op : Op n τ} {r : Except Raised (Ans op)}

/-- **An operation that the contract permits keeps what is remembered.** -/
theorem Remembers.step (h : Remembers w know) (hinv : Inv w know)
    (hm : (contract n τ).May (know i) op) (hdid : Did i w op r w') :
    Remembers w' (update know i (learn (know i) op r)) := by
  obtain ⟨hfin, hm⟩ := hm
  have hw := hinv.sound
  have hlearn : op ≠ .takeVersion → op ≠ .rememberUnstoredFailure →
      SameFailure (know i) (learn (know i) op r) := sameFailure_learn (know i)
  have hoth (j : ι) (_ : j ≠ i) : w.started j = w.started j ∧ w.readAt j = w.readAt j :=
    ⟨rfl, rfl⟩
  have hrd (j : ι) (hj : j ≠ i) :
      (w.reads i).started j = w.started j ∧ (w.reads i).readAt j = w.readAt j := by
    simp [World.reads, update_of_ne hj]
  cases hdid with
  | nothing heq =>
    rw [heq, update_eq_self]
    exact h
  | tookVersion => exact h.tookVersion hw hfin hm
  | remembered => exact h.remembered hw (hinv.tied i) hfin hm
  | finished settlement => exact h.ended hw (hinv.tied i) hfin hm.1 hm.2
  | readRow | readRowFailed e =>
    exact h.frame hw hfin (hlearn (by simp) (by simp)) rfl rfl rfl rfl le_rfl le_rfl hrd
  | merged counted row =>
    have heq := hlearn (by simp) (by simp)
    cases counted with
    | false => exact h.frame hw hfin heq rfl rfl rfl rfl le_rfl le_rfl hoth
    | true => exact h.frame hw hfin heq rfl rfl rfl rfl le_rfl (Nat.le_succ _) hoth
  | deleted =>
    exact h.frame hw hfin (hlearn (by simp) (by simp)) rfl rfl rfl rfl le_rfl (Nat.le_succ _) hoth
  | bumped =>
    refine h.frame hw hfin (hlearn (by simp) (by simp)) rfl rfl rfl rfl (Nat.le_succ _) ?_ hoth
    simp only [World.changes]
    omega
  | _ =>
    exact h.frame hw hfin (hlearn (by simp) (by simp)) rfl rfl rfl rfl le_rfl le_rfl hoth

variable {defaultModel : String} {s s' : State ι n τ}

/-- **What is remembered of failures holds of every state that can be reached.** -/
theorem Reachable.remembers (h : Reachable defaultModel s) :
    Kept (contract n τ) (fun w know => Inv w know ∧ Remembers w know) s := by
  obtain ⟨row, es, hpr, hr⟩ := h
  refine (run_invariant (I := fun s : State ι n τ => Coherent s ∧
    Kept (contract n τ) (fun w know => Inv w know ∧ Remembers w know) s) ?_
    ⟨coherent_init hpr, _, ⟨Inv.init hpr, remembers_init⟩, fun _ => trivial⟩ hr).2
  rintro u e u' ⟨hu, hk⟩ hs
  refine ⟨hu.step hs, hu.kept_step hs hk ?_ ?_ ?_⟩
  · intro know i call hJ hunc hflt
    exact ⟨hJ.1.start hunc hflt, hJ.2.start (hJ.1.tied i) hunc hflt⟩
  · intro know i op r w' hJ hcld hm hdid
    exact ⟨hJ.1.step hcld hm hdid, hJ.2.step hJ.1 hm hdid⟩
  · exact fun know hJ => ⟨hJ.1.forget, hJ.2.forget⟩

/-- **The failed overlay is truthful.** Outside the gap between a commit and the move of the
version, and with no run in flight, a reader who is told failed over another stored status is
told of the latest run to end without a stored verdict, cancelled runs and runs that had nothing
to ask for aside: it has failed, and the row has been what that run read ever since. And if that
run has failed, and the version is the one that it took before its read of the row, every reader
is told so. -/
theorem overlayStatus_isTruthful (hs : Reachable defaultModel s) (hidle : s.1.inFlight = none) :
    (∀ stored, s.1.owed = 0 → s.1.overlayStatus stored = some .failed → stored ≠ some .failed →
      ∃ x, s.1.latestAttempt = some x ∧ x.result = .failed ∧ s.1.overtaken x.run = false ∧
        s.1.started x.run = some (described s.1.row)) ∧
    ∀ x, s.1.latestAttempt = some x → x.result = .failed →
      s.1.jobVersion x.run = some s.1.version →
      ∀ stored, s.1.overlayStatus stored = some .failed := by
  obtain ⟨know, ⟨hinv, hrem⟩, -⟩ := hs.remembers
  refine ⟨fun stored howed hoverl hsto => ?_, fun x hx hfa hver stored => ?_⟩
  · have hunst : s.1.unstoredFailure = some s.1.version := by
      by_contra hne
      simp only [World.overlayStatus, hidle, isSome_none, Bool.false_eq_true, if_false,
        if_neg hne] at hoverl
      obtain ⟨status, hstat, hfa⟩ := map_eq_some_iff.mp hoverl
      cases status with
      | ok => cases hfa
      | failed => exact hsto hstat
    have hcur : s.1.version = s.1.changes := by simp [World.changes, howed]
    rcases hrem.memory _ hunst hcur with ⟨j, hj, -⟩ | ⟨x, hx, hfa, hsta, hrd⟩
    · rw [hidle] at hj
      cases hj
    · have hover := hinv.sound.undisturbed x.run hsta hrd
      obtain ⟨e, he⟩ := ne_none_iff_exists'.mp hsta
      refine ⟨x, hx, hfa, hover, ?_⟩
      rw [he, hinv.sound.started x.run e he hover]
  · have hunst := hrem.recalled x hx hfa hver
    simp [World.overlayStatus, hidle, hunst]

def oneChunk : CollectionMeta 1 ℕ :=
  { CollectionMeta.bare "small" with centroidSum := some 0, docCount := 1, chunkCount := 1 }

def failsUnstored : List (Event ℕ 1 ℕ) :=
  [.start 0 (.generation .describe), .step 0 .done, .step 0 .done, .step 0 .done, .step 0 .done,
    .step 0 (.generated (.failed .callFailed "")), .step 0 .timedOut, .step 0 .done,
    .step 0 .done]

/-- A run that is asked for by an ingest, and before its turn the document is deleted. -/
def notRequiredAnyMore : List (Event ℕ 1 ℕ) :=
  [.start 1 (.generation .ingest), .start 2 .deleteDocument, .step 2 .done,
    .step 2 (.vectors [0]), .step 2 .done, .step 2 .done, .step 2 (.time 3), .step 2 .done,
    .step 2 .done, .step 2 .done, .step 1 .done, .step 1 .done, .step 1 .done, .step 1 .done,
    .step 1 .done]

theorem isPaired_oneChunk : ∀ m ∈ some oneChunk, IsPaired m := by
  rintro _ ⟨⟩ v ⟨⟩

theorem overlayStatus_isTruthful_failsUnstored :
    ∃ s : State ℕ 1 ℕ,
      run (Descriptions.step "small") (.init (some oneChunk)) failsUnstored = some s ∧
      (∃ x, s.1.latestAttempt = some x ∧ x.result = .failed ∧ s.1.overtaken x.run = false ∧
        s.1.started x.run = some (described s.1.row)) ∧
      ∀ stored, s.1.overlayStatus stored = some .failed := by
  obtain ⟨s, hs, hidle, howed, hover, hatt, hver⟩ :
      ∃ s ∈ run (Descriptions.step "small") (State.init (some oneChunk)) failsUnstored,
        s.1.inFlight = none ∧ s.1.owed = 0 ∧ s.1.overlayStatus none = some .failed ∧
          s.1.latestAttempt = some ⟨0, .failed, true, false⟩ ∧
          s.1.jobVersion 0 = some s.1.version := by
    decide +kernel
  have htrut := overlayStatus_isTruthful ⟨_, _, isPaired_oneChunk, hs⟩ hidle
  exact ⟨s, hs, htrut.1 none howed hover (by simp), htrut.2 _ hatt rfl hver⟩

/-- **A run that has nothing to do any more leaves the overlay alone**: then the latest run to
end without a stored verdict has not failed. -/
theorem overlayStatus_failed_afterNotRequired :
    ∃ s : State ℕ 1 ℕ,
      run (Descriptions.step "small") (.init (some oneChunk))
        (failsUnstored ++ notRequiredAnyMore) = some s ∧
      s.1.owed = 0 ∧ s.1.inFlight = none ∧ s.1.overlayStatus none = some .failed ∧
      (s.1.ended.find? fun x => !x.wrote) = some ⟨1, .notRequired, false, false⟩ := by
  show ∃ s ∈ run (Descriptions.step "small") (State.init (some oneChunk))
    (failsUnstored ++ notRequiredAnyMore), _
  decide +kernel

end ArchonSearch.Descriptions
