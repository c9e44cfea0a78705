import ArchonSearch.Descriptions.System

/-!
# What always holds of the writers of a row

The lock, the copies that its holder works on, and the history of the runs hang together. What is
said of the world alone is `World.Sound`, and what ties one task to it is `Tied`: the holder of the
lock has the row as it is; what a run expects is what the row was when the run read it; and as long
as the number of changes is what it was then, nothing has been changed.

An operation is one of a dozen things (`Did`), and each of them keeps both. So they hold in every
state that can be reached (`Reachable.coherent`).
-/

namespace ArchonSearch.Descriptions

open Lib Async Option Function

variable {ι : Type} {n : ℕ} {τ : Type} [DecidableEq ι] [DecidableEq τ]

/-! ### What an operation does -/

inductive Did (i : ι) (w : World ι n τ) :
    (op : Op n τ) → Except Raised (Ans op) → World ι n τ → Prop where
  | nothing {op : Op n τ} {r : Except Raised (Ans op)} : (∀ k, learn k op r = k) → Did i w op r w
  | read : Did i w .getCollectionMeta (.ok w.row) w
  | readRow : Did i w .readRow (.ok w.row) (w.reads i)
  | readRowFailed (e : Raised) : Did i w .readRow (.error e) (w.reads i)
  | readMetaUnlocked : Did i w .readMetaUnlocked (.ok w.row) w
  | acquired : w.holder = none → Did i w .acquire (.ok true) { w with holder := some i }
  | released : Did i w .release (.ok ()) { w with holder := none }
  | merged (counted : Bool) (row : CollectionMeta n τ) :
      Did i w (.merge counted row) (.ok ()) (w.write i counted row.stored)
  | bumped : Did i w .bumpDescriptionVersion (.ok ())
      { w with version := w.version + 1, owed := w.owed - 1 }
  | deleted : Did i w .deleteRow (.ok ()) { w.replaceRow none with owed := w.owed + 1 }
  | asked (r : Except Raised DescriptionOutcome) :
      Did i w .generate r { w with asked := update w.asked i true }
  | tookVersion : Did i w .takeVersion (.ok ())
      { w with jobVersion := update w.jobVersion i (some w.version) }
  | remembered : Did i w .rememberUnstoredFailure (.ok ()) (w.remember i)
  | finished (settlement : GenerationSettlement) :
      Did i w (.finish settlement) (.ok ()) (w.finish i settlement)

variable {op : Op n τ}

theorem learn_error {e : Raised} (hraise : op.mayRaise e = true)
    (hrd : op ≠ .readRow) (hgen : op ≠ .generate) (k : Know n τ) :
    learn k op (.error e) = k := by
  cases op <;> first | rfl | exact absurd rfl hrd | exact absurd rfl hgen | cases hraise

variable {reply : Reply n τ} {r : Except Raised (Ans op)}

/-- **What can be answered, and what it has done.** -/
theorem did_of_exec {i : ι} {w w' : World ι n τ} (h : w.exec i op reply = some (r, w')) :
    (contract n τ).Can (.start .clear) op r ∧ Did i w op r w' := by
  unfold World.exec at h
  split at h
  case h_3 op e hrd hgen =>
    split_ifs at h with hraise
    cases h
    exact ⟨hraise, .nothing (learn_error hraise hrd hgen)⟩
  case h_7 =>
    split_ifs at h with hho
    cases h
    exact ⟨trivial, .acquired hho⟩
  all_goals cases h
  case h_1 => exact ⟨rfl, .readRowFailed _⟩
  case h_2 => exact ⟨rfl, .asked _⟩
  case h_4 => exact ⟨trivial, .read⟩
  case h_5 => exact ⟨trivial, .readRow⟩
  case h_6 => exact ⟨trivial, .readMetaUnlocked⟩
  case h_9 => exact ⟨trivial, .released⟩
  case h_10 => exact ⟨trivial, .merged _ _⟩
  case h_11 => exact ⟨trivial, .bumped⟩
  case h_13 => exact ⟨trivial, .deleted⟩
  case h_21 => exact ⟨trivial, .asked _⟩
  case h_22 => exact ⟨trivial, .tookVersion⟩
  case h_24 => exact ⟨trivial, .remembered⟩
  case h_25 => exact ⟨trivial, .finished _⟩
  all_goals exact ⟨trivial, .nothing fun _ => rfl⟩

theorem row_of_ne_done {i : ι} {w w' : World ι n τ} (h : w.exec i op reply = some (r, w'))
    (hne : reply ≠ .done) :
    w'.row = w.row := by
  unfold World.exec at h
  split at h
  case h_3 op e hrd hgen =>
    split_ifs at h
    cases h
    rfl
  case h_7 => exact absurd rfl hne
  all_goals cases h
  all_goals first | rfl | exact absurd rfl hne

/-! ### The invariant -/

section
omit [DecidableEq ι] [DecidableEq τ]

/-- What holds of the row and of what is kept beside it. -/
structure World.Sound (w : World ι n τ) : Prop where
  paired : ∀ m ∈ w.row, IsPaired m
  idle : w.holder = none → w.owed = 0
  started : ∀ i e, w.started i = some e → w.overtaken i = false → described w.row = e
  readAt : ∀ i, w.readAt i ≤ w.changes
  undisturbed : ∀ i, w.started i ≠ none → w.readAt i = w.changes → w.overtaken i = false
  jobVersion : ∀ i v, w.jobVersion i = some v → v ≤ w.version
  isRun : ∀ i, w.started i ≠ none → IsRun (w.call i)
  unstored : ∀ v, w.unstoredFailure = some v → v ≤ w.version
  later : ∀ i v, w.inFlight = some i → w.started i ≠ none → w.unstoredFailure = some v →
    v ≤ w.readAt i

/-- What a task knows is so. -/
structure Tied (w : World ι n τ) (i : ι) (k : Know n τ) : Prop where
  call : k.call = w.call i
  unstarted : w.call i = none → k = { call := none } ∧ w.started i = none
  holder : k.hold ≠ .free ↔ w.holder = some i
  copied : ∀ row, k.hold = .copied row → w.row = row
  owed : w.holder = some i → w.owed = if k.owes then 1 else 0
  owes : k.owes = true → k.hold ≠ .free
  expects : ∀ e, k.expects = some e → w.started i = some e ∧ (w.readAt i = w.changes → w.row.isSome)
  took : k.took = true → (w.jobVersion i).isSome
  fresh : k.fresh = true → ∃ v, w.jobVersion i = some v ∧ w.started i ≠ none ∧ v ≤ w.readAt i
  asked : w.asked i = k.asked
  wrote : w.wrote i = k.wrote
  wroteAt : k.wrote = true → w.started i ≠ none → w.readAt i < w.changes
  verdict : k.verdict ≠ none → w.started i ≠ none ∧ w.readAt i < w.changes
  inFlight : IsRun (w.call i) → (k.finished = false ↔ w.inFlight = some i)
  settled : ∀ r, w.settled i = some r →
    k.finished = true ∧ ∀ refused, k.verdict = some refused → r = refused

/-- The world is sound, and what each task knows is so. -/
structure Inv (w : World ι n τ) (know : ι → Know n τ) : Prop where
  sound : w.Sound
  tied : ∀ i, Tied w i (know i)

end

section Steps

variable {i : ι} {w w' : World ι n τ} {know : ι → Know n τ} {k : Know n τ}

omit [DecidableEq τ] in
/-- One task has moved, and the others are where they were. -/
theorem Inv.update (h : Inv w know) (hsd : w'.Sound) (hi : Tied w' i k)
    (hoth : ∀ j k, j ≠ i → Tied w j k → Tied w' j k) :
    Inv w' (update know i k) := by
  refine ⟨hsd, fun j => ?_⟩
  by_cases hj : j = i
  · subst hj
    rwa [update_self]
  · rw [update_of_ne hj]
    exact hoth j _ hj (h.tied j)

omit [DecidableEq τ] in
theorem Inv.learn (h : Inv w know) (hi : Tied w i k) :
    Inv w (Function.update know i k) :=
  h.update h.sound hi fun _ _ _ hj => hj

omit [DecidableEq ι] [DecidableEq τ] in
theorem Tied.hold_eq_free {j : ι} {k k' : Know n τ} (hi : Tied w i k) (hho : k.hold ≠ .free)
    (hj : Tied w j k') (hne : j ≠ i) : k'.hold = .free := by
  by_contra hh
  have heq := (hi.holder.mp hho).symm.trans (hj.holder.mp hh)
  exact hne (some.inj heq).symm

/-! ### Reads -/

omit [DecidableEq ι] [DecidableEq τ] in
/-- What has changed since a run read its row can be told from the number of changes. -/
theorem Tied.readAt_lt {e : ExpectedState τ} (hi : Tied w i k) (hw : w.Sound)
    (he : k.expects = some e) (hchgd : w.row = none ∨ described w.row ≠ e) :
    w.readAt i < w.changes := by
  obtain ⟨hsta, hexis⟩ := hi.expects e he
  refine lt_of_le_of_ne (hw.readAt i) fun heq => ?_
  rcases hchgd with hn | hne
  · have hs := hexis heq
    rw [hn] at hs
    cases hs
  · exact hne (hw.started i e hsta (hw.undisturbed i (by simp [hsta]) heq))

omit [DecidableEq ι] in
theorem Tied.readAt_lt_of_verdictOver {e : ExpectedState τ} (hi : Tied w i k)
    (hw : w.Sound) (he : k.expects = some e) (hsrc : e.source ≠ some .manual)
    (hver : verdictOver e w.row ≠ none) : w.readAt i < w.changes := by
  refine hi.readAt_lt hw he ?_
  cases hr : w.row with
  | none => exact Or.inl rfl
  | some row =>
    refine Or.inr ?_
    rintro rfl
    -- the description is not manual, and it is what it was
    refine hver ?_
    rw [hr]
    have hman : row.descriptionSource ≠ some .manual := hsrc
    simp [verdictOver, hman, described]

variable {row : Option (CollectionMeta n τ)}

omit [DecidableEq ι] [DecidableEq τ] in
theorem Hold.see_ne_free {h : Hold n τ} :
    h.see row ≠ .free ↔ h ≠ .free := by
  cases h <;> simp [Hold.see]

omit [DecidableEq ι] [DecidableEq τ] in
/-- The row is read, and a refusal may be seen in it. -/
theorem Tied.see (hi : Tied w i k) (hc : w.call i ≠ none)
    (hfin : k.finished = false) {verdict : Option GenerationResult}
    (hver : verdict ≠ none → w.started i ≠ none ∧ w.readAt i < w.changes) :
    Tied w i { k with hold := k.hold.see w.row, verdict := verdict } :=
  { hi with
    unstarted := fun hn => absurd hn hc
    holder := Hold.see_ne_free.trans hi.holder
    copied := by
      intro row hrw
      cases hho : k.hold with
      | free => simp [hho, Hold.see] at hrw
      | held => simpa [hho, Hold.see] using hrw
      | copied read => simpa [hho, Hold.see] using hrw
    owes := fun howes => Hold.see_ne_free.mpr (hi.owes howes)
    verdict := hver
    settled := by
      intro r hr
      have hst := (hi.settled r hr).1
      rw [hfin] at hst
      cases hst }

theorem Inv.read (h : Inv w know) (hc : w.call i ≠ none)
    (hfin : (know i).finished = false) :
    Inv w (Function.update know i
      (Descriptions.learn (know i) .getCollectionMeta (.ok w.row))) := by
  refine h.learn ((h.tied i).see hc hfin fun hver => ?_)
  cases hold : (know i).verdict with
  | some r => exact (h.tied i).verdict (by simp [hold])
  | none =>
    cases he : (know i).expects with
    | none => simp [hold, he] at hver
    | some e =>
      have hsta := ((h.tied i).expects e he).1
      refine ⟨by simp [hsta], (h.tied i).readAt_lt h.sound he (Or.inl ?_)⟩
      by_contra hs
      obtain ⟨row, hr⟩ := ne_none_iff_exists'.mp hs
      simp [hold, he, hr, verdictOfGone] at hver

theorem Inv.readMetaUnlocked (h : Inv w know) (hc : w.call i ≠ none)
    (hfin : (know i).finished = false)
    (hm : ∀ e ∈ (know i).expects, e.source ≠ some .manual) :
    Inv w (Function.update know i (Descriptions.learn (know i) .readMetaUnlocked (.ok w.row))) := by
  refine h.learn ((h.tied i).see hc hfin fun hver => ?_)
  cases hold : (know i).verdict with
  | some r => exact (h.tied i).verdict (by simp [hold])
  | none =>
    cases he : (know i).expects with
    | none => simp [hold, he] at hver
    | some e =>
      have hsta := ((h.tied i).expects e he).1
      refine ⟨by simp [hsta], ?_⟩
      refine (h.tied i).readAt_lt_of_verdictOver h.sound he (hm e he) ?_
      simpa [hold, he] using hver

omit [DecidableEq τ] in
theorem Inv.reads (h : Inv w know) (hc : w.call i ≠ none) (hr : IsRun (know i).call)
    (htook : (know i).took = true) (hn : (know i).verdict = none)
    {expects : Option (ExpectedState τ)}
    (hexp : ∀ e, expects = some e → described w.row = e ∧ w.row.isSome) :
    Inv (w.reads i) (Function.update know i
      { know i with fresh := true, wrote := false, expects := expects }) := by
  have hi := h.tied i
  have hw := h.sound
  have hver : w.version ≤ w.changes := Nat.le_add_right _ _
  refine h.update ?_ ?_ ?_
  · -- the world: the run that reads is up to date
    refine { hw with started := ?_, readAt := ?_, undisturbed := ?_, isRun := ?_, later := ?_ }
    · intro j e hsta hover
      by_cases hj : j = i
      · subst hj
        simpa [World.reads] using hsta
      · simp only [World.reads, update_of_ne hj] at hsta hover
        exact hw.started j e hsta hover
    · intro j
      by_cases hj : j = i
      · subst hj
        simp [World.reads, World.changes]
      · simp only [World.reads, update_of_ne hj]
        exact hw.readAt j
    · intro j hsta heq
      by_cases hj : j = i
      · subst hj
        simp [World.reads]
      · simp only [World.reads, update_of_ne hj] at hsta heq ⊢
        exact hw.undisturbed j hsta heq
    · intro j hsta
      by_cases hj : j = i
      · subst hj
        exact hi.call ▸ hr
      · simp only [World.reads, update_of_ne hj] at hsta
        exact hw.isRun j hsta
    · intro j v hflt hsta hv
      by_cases hj : j = i
      · subst hj
        simp only [World.reads, update_self]
        exact (hw.unstored v hv).trans hver
      · simp only [World.reads, update_of_ne hj] at hsta ⊢
        exact hw.later j v hflt hsta hv
  · refine { hi with
      unstarted := fun hc' => absurd hc' hc
      expects := ?_
      fresh := ?_
      wrote := by simp [World.reads]
      wroteAt := fun h => (by cases h)
      verdict := fun h => absurd hn h }
    · intro e he
      obtain ⟨rfl, hs⟩ := hexp e he
      exact ⟨by simp [World.reads], fun _ => hs⟩
    · intro _
      obtain ⟨v, hv⟩ := isSome_iff_exists.mp (hi.took htook)
      refine ⟨v, hv, by simp [World.reads], ?_⟩
      simp only [World.reads, update_self]
      exact (hw.jobVersion i v hv).trans hver
  · intro j k hj hti
    refine { hti with
      unstarted := ?_, expects := ?_, fresh := ?_, wrote := ?_, wroteAt := ?_, verdict := ?_ }
    all_goals simp only [World.reads, update_of_ne hj]
    · exact hti.unstarted
    · exact hti.expects
    · exact hti.fresh
    · exact hti.wrote
    · exact hti.wroteAt
    · exact hti.verdict

/-! ### The lock -/

omit [DecidableEq τ] in
theorem Inv.acquired (h : Inv w know) (hfr : w.holder = none) (hc : w.call i ≠ none) :
    Inv { w with holder := some i }
      (Function.update know i { know i with hold := .held }) := by
  have hi := h.tied i
  have howed : w.owed = 0 := h.sound.idle hfr
  have hho {j : ι} {k : Know n τ} (hj : Tied w j k) : k.hold = .free := by
    by_contra hh
    have hs := hj.holder.mp hh
    rw [hfr] at hs
    cases hs
  refine h.update { h.sound with idle := fun hn => (by cases hn) } ?_ fun j k hj hti => ?_
  · refine { hi with
      unstarted := fun hn => absurd hn hc
      holder := iff_of_true (by simp) rfl
      copied := fun row hr => (by cases hr)
      owed := fun _ => ?_
      owes := fun _ => (by simp) }
    have howes : (know i).owes = false := by
      rw [Bool.eq_false_iff]
      exact fun howes => hi.owes howes (hho hi)
    simp [howes, howed]
  · exact { hti with
      holder := iff_of_false (fun hh => hh (hho hti)) fun hs => hj (some.inj hs).symm
      owed := fun hs => absurd (some.inj hs).symm hj }

omit [DecidableEq τ] in
theorem Inv.released (h : Inv w know) (hho : (know i).hold ≠ .free)
    (howes : (know i).owes = false) (hc : w.call i ≠ none) :
    Inv { w with holder := none } (Function.update know i { know i with hold := .free }) := by
  have hi := h.tied i
  have howed : w.owed = 0 := by
    have hdebt := hi.owed (hi.holder.mp hho)
    rwa [howes] at hdebt
  refine h.update { h.sound with idle := fun _ => howed } ?_ fun j k hj hti => ?_
  · exact { hi with
      unstarted := fun hn => absurd hn hc
      holder := iff_of_false (fun hh => hh rfl) (fun hs => (by cases hs))
      copied := fun row hr => (by cases hr)
      owed := fun hs => (by cases hs)
      owes := fun htrue => absurd htrue (by simp [howes]) }
  · exact { hti with
      holder := iff_of_false (fun hh => hh (hi.hold_eq_free hho hti hj)) (fun hs => (by cases hs))
      owed := fun hs => (by cases hs) }

/-! ### Writes -/

variable {read : Option (CollectionMeta n τ)}

omit [DecidableEq ι] [DecidableEq τ] in
theorem Carries.described_eq {row : CollectionMeta n τ}
    (h : Carries read row) :
    Descriptions.described (some row.stored) = Descriptions.described read :=
  row.described_stored.trans h.described

/-- **A write that leaves the description alone** overtakes nobody. -/
theorem Inv.carried (h : Inv w know) (hc : w.call i ≠ none) {row : CollectionMeta n τ}
    (hho : (know i).hold = .copied read) (howes : (know i).owes = false)
    (hr : Carries read row) :
    Inv (w.replaceRow (some row.stored)) (Function.update know i
      { know i with hold := .copied (some row.stored), owes := false }) := by
  have hi := h.tied i
  have hw := h.sound
  have hh : (know i).hold ≠ .free := by simp [hho]
  have hrd : w.row = read := hi.copied read hho
  have heq : described (some row.stored) = described w.row :=
    hr.described_eq.trans (congrArg _ hrd.symm)
  have hrep : w.replaceRow (some row.stored) = { w with row := some row.stored } := by
    simp [World.replaceRow, heq]
  rw [hrep]
  refine h.update ?_ ?_ fun j k hj hti => ?_
  · refine { hw with paired := ?_, started := ?_ }
    · rintro m ⟨⟩
      exact (hr.paired fun m hm => hw.paired m (hrd ▸ hm)).stored
    · intro j e hsta hover
      exact heq.trans (hw.started j e hsta hover)
  · exact { hi with
      unstarted := fun hn => absurd hn hc
      holder := iff_of_true (by simp) (hi.holder.mp hh)
      copied := fun row' hr' => Hold.copied.inj hr'
      owed := fun hs => by simpa [howes] using hi.owed hs
      owes := fun htrue => (by cases htrue)
      expects := fun e he => ⟨(hi.expects e he).1, fun _ => rfl⟩ }
  · have hfr := hi.hold_eq_free hh hti hj
    exact { hti with
      copied := fun row' hr' => by simp [hfr] at hr'
      expects := fun e he => ⟨(hti.expects e he).1, fun _ => rfl⟩ }

/-- **A change of the description, or of the row**, is one more change than there was when
anybody read the row. -/
theorem Inv.changed (h : Inv w know) (hc : w.call i ≠ none) (hh : (know i).hold ≠ .free)
    (howes : (know i).owes = false)
    (hpr : ∀ m ∈ row, IsPaired m) (wrote : Bool) :
    Inv { w.replaceRow row with
        owed := w.owed + 1, wrote := Function.update w.wrote i wrote }
      (Function.update know i
        { know i with hold := .copied row, owes := true, wrote := wrote }) := by
  have hi := h.tied i
  have hw := h.sound
  have hho : w.holder = some i := hi.holder.mp hh
  have howed : w.owed = 0 := by simpa [howes] using hi.owed hho
  have hlt (j : ι) : w.readAt j < w.version + (w.owed + 1) :=
    Nat.lt_succ_of_le (hw.readAt j)
  refine h.update ?_ ?_ fun j k hj hti => ?_
  · refine { hw with paired := hpr, idle := ?_, started := ?_, readAt := ?_, undisturbed := ?_ }
    · intro hn
      exact absurd (hho.symm.trans hn) (by simp)
    · intro j e hsta hover
      obtain ⟨hbef, heq⟩ := Bool.or_eq_false_iff.mp hover
      have heq : described row = described w.row := by simpa using heq
      exact heq.trans (hw.started j e hsta hbef)
    · exact fun j => (hlt j).le
    · exact fun j _ hreadAt => absurd hreadAt (hlt j).ne
  · exact { hi with
      unstarted := fun hn => absurd hn hc
      holder := iff_of_true (by simp) hho
      copied := fun row' hr' => Hold.copied.inj hr'
      owed := fun _ => by simp [howed]
      owes := fun _ => (by simp)
      expects := fun e he => ⟨(hi.expects e he).1, fun hreadAt => absurd hreadAt (hlt i).ne⟩
      wrote := by simp
      wroteAt := fun _ _ => hlt i
      verdict := fun hver => ⟨(hi.verdict hver).1, hlt i⟩ }
  · have hfr := hi.hold_eq_free hh hti hj
    exact { hti with
      copied := fun row' hr' => by simp [hfr] at hr'
      owed := fun hs => absurd (some.inj (hho.symm.trans hs)).symm hj
      expects := fun e he => ⟨(hti.expects e he).1, fun hreadAt => absurd hreadAt (hlt j).ne⟩
      wrote := by simpa [update_of_ne hj] using hti.wrote
      wroteAt := fun _ _ => hlt j
      verdict := fun hver => ⟨(hti.verdict hver).1, hlt j⟩ }

omit [DecidableEq τ] in
theorem Inv.bumped (h : Inv w know) (hc : w.call i ≠ none) (howes : (know i).owes = true) :
    Inv { w with version := w.version + 1, owed := w.owed - 1 }
      (Function.update know i { know i with owes := false }) := by
  have hi := h.tied i
  have hw := h.sound
  have hho : w.holder = some i := hi.holder.mp (hi.owes howes)
  have howed : w.owed = 1 := by simpa [howes] using hi.owed hho
  have hchg : w.version + 1 + (w.owed - 1) = w.changes := by
    simp [World.changes, howed]
  refine h.update ?_ ?_ fun j k hj hti => ?_
  · exact { hw with
      idle := fun hn => absurd (hho.symm.trans hn) (by simp)
      readAt := fun j => (hw.readAt j).trans_eq hchg.symm
      undisturbed := fun j hsta hreadAt => hw.undisturbed j hsta (hreadAt.trans hchg)
      jobVersion := fun j v hv => (hw.jobVersion j v hv).trans (Nat.le_succ _)
      unstored := fun v hv => (hw.unstored v hv).trans (Nat.le_succ _) }
  · exact { hi with
      unstarted := fun hn => absurd hn hc
      owed := fun _ => by simp [howed]
      owes := fun htrue => (by cases htrue)
      expects := fun e he => ⟨(hi.expects e he).1,
        fun hreadAt => (hi.expects e he).2 (hreadAt.trans hchg)⟩
      wroteAt := fun hwrote hsta => (hi.wroteAt hwrote hsta).trans_eq hchg.symm
      verdict := fun hver => ⟨(hi.verdict hver).1, (hi.verdict hver).2.trans_eq hchg.symm⟩ }
  · exact { hti with
      owed := fun hs => absurd (some.inj (hho.symm.trans hs)).symm hj
      expects := fun e he => ⟨(hti.expects e he).1,
        fun hreadAt => (hti.expects e he).2 (hreadAt.trans hchg)⟩
      wroteAt := fun hwrote hsta => (hti.wroteAt hwrote hsta).trans_eq hchg.symm
      verdict := fun hver => ⟨(hti.verdict hver).1, (hti.verdict hver).2.trans_eq hchg.symm⟩ }

/-! ### Runs -/

omit [DecidableEq τ] in
theorem Inv.asked (h : Inv w know) (hc : w.call i ≠ none) :
    Inv { w with asked := Function.update w.asked i true }
      (Function.update know i { know i with asked := true }) := by
  have hi := h.tied i
  refine h.update { h.sound with } ?_ fun j k hj hti => ?_
  · exact { hi with
      unstarted := fun hn => absurd hn hc
      asked := by simp }
  · exact { hti with asked := by simpa [update_of_ne hj] using hti.asked }

omit [DecidableEq τ] in
theorem Inv.tookVersion (h : Inv w know) (hc : w.call i ≠ none) :
    Inv { w with jobVersion := Function.update w.jobVersion i (some w.version) }
      (Function.update know i { know i with took := true, fresh := false }) := by
  have hi := h.tied i
  refine h.update { h.sound with jobVersion := ?_ } ?_ fun j k hj hti => ?_
  · intro j v hv
    by_cases hj : j = i
    · subst hj
      simp only [update_self, some.injEq] at hv
      exact hv.ge
    · simp only [update_of_ne hj] at hv
      exact h.sound.jobVersion j v hv
  · exact { hi with
      unstarted := fun hn => absurd hn hc
      took := fun _ => by simp
      fresh := fun hfr => (by cases hfr) }
  · exact { hti with
      took := by simpa [update_of_ne hj] using hti.took
      fresh := by simpa [update_of_ne hj] using hti.fresh }

omit [DecidableEq ι] [DecidableEq τ] in
/-- A run that is not finished is the one in flight. -/
theorem Tied.inFlight_eq (hi : Tied w i k) (hr : IsRun k.call)
    (hfin : k.finished = false) : w.inFlight = some i :=
  (hi.inFlight (hi.call ▸ hr)).mp hfin

omit [DecidableEq τ] in
theorem Inv.remembered (h : Inv w know) (hc : w.call i ≠ none)
    (hfin : (know i).finished = false) (hfr : (know i).fresh = true) :
    Inv (w.remember i) (Function.update know i { know i with remembered := true }) := by
  have hi := h.tied i
  have hw := h.sound
  obtain ⟨version, hver, hsta, hle⟩ := hi.fresh hfr
  have hflt := (hi.inFlight (hw.isRun i hsta)).mp hfin
  have hunst : (w.remember i).unstoredFailure = some version := by
    simp [World.remember, hver]
  refine h.update ?_ ?_ fun j k hj hti => { hti with }
  · refine { hw with unstored := ?_, later := ?_ }
    · intro v hv
      obtain rfl := some.inj (hunst.symm.trans hv)
      exact hw.jobVersion i _ hver
    · intro j v hj _ hv
      obtain rfl := some.inj (hunst.symm.trans hv)
      obtain rfl := some.inj (hflt.symm.trans hj)
      exact hle
  · exact { hi with unstarted := fun hn => absurd hn hc }

omit [DecidableEq τ] in
theorem Inv.finished (h : Inv w know) (hc : w.call i ≠ none)
    (hfin : (know i).finished = false) (hrun : IsRun (know i).call)
    {settlement : GenerationSettlement} (hst : MaySettle (know i) settlement.result) :
    Inv (w.finish i settlement) (Function.update know i { know i with finished := true }) := by
  have hi := h.tied i
  have hflt := hi.inFlight_eq hrun hfin
  refine h.update ?_ ?_ fun j k hj hti => ?_
  · exact { h.sound with later := fun j v hj => (by cases hj) }
  · refine { hi with
      unstarted := fun hn => absurd hn hc
      inFlight := fun _ => iff_of_false (by simp) (fun hs => (by cases hs))
      settled := ?_ }
    intro r hr
    simp only [World.finish, update_self, some.injEq] at hr
    exact ⟨rfl, fun refused href => hr ▸ hst.refused refused href⟩
  · refine { hti with inFlight := ?_, settled := ?_ }
    · intro hrunj
      refine iff_of_false (fun hunf => ?_) (fun hs => (by cases hs))
      have heq := hflt.symm.trans ((hti.inFlight hrunj).mp hunf)
      exact hj (some.inj heq).symm
    · simpa [World.finish, update_of_ne hj] using hti.settled

/-- **An operation that the contract permits keeps the invariant.** -/
theorem Inv.step {op : Op n τ} {r : Except Raised (Ans op)} (h : Inv w know)
    (hc : w.call i ≠ none) (hmy : (contract n τ).May (know i) op) (hdid : Did i w op r w') :
    Inv w' (Function.update know i (Descriptions.learn (know i) op r)) := by
  obtain ⟨hfin, hmy⟩ := hmy
  cases hdid with
  | nothing hlearn =>
    rw [hlearn, update_eq_self]
    exact h
  | read => exact h.read hc hfin
  | readRow =>
    refine h.reads hc hmy.1 hmy.2.1 hmy.2.2 fun e he => ?_
    obtain ⟨row, hr, rfl⟩ := map_eq_some_iff.mp he
    simp [hr, described]
  | readRowFailed e =>
    exact h.reads hc hmy.1 hmy.2.1 hmy.2.2 fun e he => by cases he
  | readMetaUnlocked => exact h.readMetaUnlocked hc hfin hmy.2.2.2
  | acquired hfr => exact h.acquired hfr hc
  | released => exact h.released hmy.1 hmy.2 hc
  | merged counted row =>
    cases counted with
    | false =>
      obtain ⟨read, hho, howes, hcar⟩ := hmy
      simpa [Descriptions.learn, World.write] using h.carried hc hho howes hcar
    | true =>
      obtain ⟨m, hho, howes, hchg⟩ := hmy
      have hrd : w.row = some m := (h.tied i).copied _ hho
      have hpr : ∀ m' ∈ some row.stored, IsPaired m' := by
        rintro _ ⟨⟩
        exact (hchg.paired (h.sound.paired m hrd)).stored
      have hh : (know i).hold ≠ .free := by simp [hho]
      simpa [Descriptions.learn, World.write] using h.changed hc hh howes hpr true
  | bumped => exact h.bumped hc hmy
  | deleted =>
    have hn : ∀ m ∈ (none : Option (CollectionMeta n τ)), IsPaired m := fun m hm => by cases hm
    have hdel := h.changed hc hmy.1 hmy.2 hn (know i).wrote
    rwa [← (h.tied i).wrote, update_eq_self, (h.tied i).wrote] at hdel
  | asked r => exact h.asked hc
  | tookVersion => exact h.tookVersion hc
  | remembered => exact h.remembered hc hfin hmy
  | finished settlement => exact h.finished hc hfin hmy.1 hmy.2

end Steps

/-! ### Runs of events -/

omit [DecidableEq ι] [DecidableEq τ] in
/-- Nothing has been read, and nobody has been called. -/
theorem Inv.init {row : Option (CollectionMeta n τ)} (hpr : ∀ m ∈ row, IsPaired m) :
    Inv (World.init row : World ι n τ) fun _ => { call := none } := by
  refine ⟨⟨hpr, fun _ => rfl, ?_, fun _ => le_rfl, ?_, ?_, ?_, ?_, ?_⟩, fun i => ?_⟩
  · rintro i e ⟨⟩
  · exact fun i hsta => absurd rfl hsta
  · rintro i v ⟨⟩
  · exact fun i hsta => absurd rfl hsta
  · rintro v ⟨⟩
  · rintro i v ⟨⟩
  · refine ⟨rfl, fun _ => ⟨rfl, rfl⟩, by simp [World.init],
      ?_, ?_, ?_, ?_, ?_, ?_, rfl, rfl, ?_, ?_,
      ?_, ?_⟩
    all_goals intros; simp_all [World.init, IsRun]

variable {w : World ι n τ} {know : ι → Know n τ}

omit [DecidableEq τ] in
/-- **A call is made**, a generation only if none is in flight. -/
theorem Inv.start {i : ι} {call : Call n τ} (h : Inv w know) (hunc : w.call i = none)
    (hflt : IsRun (some call) → w.inFlight = none) :
    Inv (w.accept i call) (Function.update know i (.start call)) := by
  have hi := h.tied i
  have hw := h.sound
  obtain ⟨hknow, hsta⟩ := hi.unstarted hunc
  rw [hknow] at hi
  refine h.update ?_ ?_ fun j k hj hti => ?_
  · refine { hw with isRun := ?_, later := ?_ }
    · intro j hj
      have hne : j ≠ i := fun heq => hj (heq ▸ hsta)
      rw [w.accept_call_of_ne hne]
      exact hw.isRun j hj
    · intro j v hj hrd hv
      have hne : j ≠ i := fun heq => hrd (heq ▸ hsta)
      simp only [World.accept] at hj
      split_ifs at hj with hrun
      · exact absurd (some.inj hj).symm hne
      · exact hw.later j v hj hrd hv
  · refine ⟨(w.accept_call_self i call).symm, fun hn => ?_, hi.holder,
      fun row hrw => (by cases hrw), hi.owed, fun howes => (by cases howes),
      fun e he => (by cases he), fun htook => (by cases htook), fun hfr => (by cases hfr),
      hi.asked, hi.wrote, fun hwrote => (by cases hwrote), fun hver => absurd rfl hver,
      fun hrun => ?_, fun r hr => ?_⟩
    · simp at hn
    · rw [w.accept_call_self] at hrun
      simp [World.accept, Know.start, hrun]
    · cases (hi.settled r hr).1
  · have hc := w.accept_call_of_ne hj call
    refine { hti with call := ?_, unstarted := ?_, inFlight := ?_ }
    · rw [hc]
      exact hti.call
    · rw [hc]
      exact hti.unstarted
    · rw [hc]
      intro hrunj
      simp only [World.accept]
      split_ifs with hrun
      · have hold := hti.inFlight hrunj
        rw [hflt hrun] at hold
        exact hold.trans (iff_of_false (by simp) fun heq => hj (some.inj heq).symm)
      · exact hti.inFlight hrunj

omit [DecidableEq ι] [DecidableEq τ] in
theorem Inv.forget (h : Inv w know) : Inv w.forget know := by
  have hsub (v : ℕ) (hv : w.forget.unstoredFailure = some v) : w.unstoredFailure = some v :=
    (filter_eq_some_iff.mp hv).1
  exact ⟨{ h.sound with
    unstored := fun v hv => h.sound.unstored v (hsub v hv)
    later := fun j v hj hrd hv => h.sound.later j v hj hrd (hsub v hv) },
    fun i => { h.tied i with }⟩

/-- What holds of a state: the invariant, of somebody's knowledge to which everybody keeps,
and nobody runs who has not been called. -/
structure Coherent (s : State ι n τ) : Prop where
  kept : Kept (contract n τ) Inv s
  uncalled : ∀ i, s.1.call i = none → s.2 i = .ret ()

theorem Did.call {i : ι} {w w' : World ι n τ}
    (h : Did i w op r w') : w'.call = w.call := by
  cases h with
  | merged counted row => cases counted <;> rfl
  | _ => rfl

omit [DecidableEq ι] in
theorem coherent_init {row : Option (CollectionMeta n τ)} (hpr : ∀ m ∈ row, IsPaired m) :
    Coherent (State.init row : State ι n τ) :=
  ⟨⟨_, Inv.init hpr, fun _ => trivial⟩, fun _ _ => rfl⟩

variable {defaultModel : String} {s s' : State ι n τ} {e : Event ι n τ}

theorem step_cases (h : step defaultModel s e = some s') :
    (∃ i call, e = .start i call ∧ s.1.call i = none ∧
      (IsRun (some call) → s.1.inFlight = none) ∧
      s' = (s.1.accept i call, update s.2 i (call.program defaultModel))) ∨
    (∃ i reply, e = .step i reply ∧ advance World.exec s i reply = some s') ∨
    (e = .otherFailure ∧ s' = (s.1.forget, s.2)) := by
  cases e with
  | start i call =>
    simp only [step] at h
    split_ifs at h with hst
    exact Or.inl ⟨i, call, rfl, hst.1, hst.2, (some.inj h).symm⟩
  | step i reply => exact Or.inr (Or.inl ⟨i, reply, rfl, h⟩)
  | otherFailure => exact Or.inr (Or.inr ⟨rfl, (some.inj h).symm⟩)

/-- An operation is asked for by somebody who may, and has done what it does. -/
theorem Coherent.advance (h : Coherent s) {i : ι}
    (hs : advance World.exec s i reply = some s') :
    ∃ know op f r, Inv s.1 know ∧ (∀ j, (s.2 j).Keeps (contract n τ) (know j)) ∧
      s.2 i = .await op f ∧ (contract n τ).May (know i) op ∧
      s.1.exec i op reply = some (r, s'.1) ∧ Did i s.1 op r s'.1 := by
  obtain ⟨know, hinv, hkp⟩ := h.kept
  obtain ⟨op, f, r, t, htask, hexec, rfl⟩ := advance_eq_some hs
  have hasks : (s.2 i).asks = some op := by rw [htask]; rfl
  have hm := (hkp i).may hasks
  exact ⟨know, op, f, r, hinv, hkp, htask, hm, hexec, (did_of_exec hexec).2⟩

omit [DecidableEq ι] in
theorem Coherent.call_ne_none (h : Coherent s) {i : ι}
    (hasks : (s.2 i).asks = some op) : s.1.call i ≠ none := by
  intro hn
  rw [h.uncalled i hn] at hasks
  cases hasks

/-- **What is kept by an event**: what calls, operations and the failures of other collections
keep. -/
theorem Coherent.kept_step {J : World ι n τ → (ι → Know n τ) → Prop}
    (h : Coherent s) (hstep : step defaultModel s e = some s') (hs : Kept (contract n τ) J s)
    (hst : ∀ know i call, J s.1 know → s.1.call i = none →
      (IsRun (some call) → s.1.inFlight = none) →
      J (s.1.accept i call) (update know i (.start call)))
    (hadv : ∀ know i op r w', J s.1 know → s.1.call i ≠ none →
      (contract n τ).May (know i) op → Did i s.1 op r w' →
      J w' (update know i (learn (know i) op r)))
    (hfor : ∀ know, J s.1 know → J s.1.forget know) : Kept (contract n τ) J s' := by
  rcases step_cases hstep with ⟨i, call, rfl, hunc, hflt, rfl⟩ | ⟨i, reply, rfl, hmove⟩ | ⟨rfl, rfl⟩
  · obtain ⟨know, hJ, hkp⟩ := hs
    refine ⟨_, hst know i call hJ hunc hflt, fun j => ?_⟩
    by_cases hne : j = i
    · subst hne
      simpa using keeps_program defaultModel call
    · simpa [update_of_ne hne] using hkp j
  · refine hs.advance hmove fun know op r t hJ hasks hm hexec => ?_
    obtain ⟨hcan, hdid⟩ := did_of_exec hexec
    exact ⟨hcan, hadv know i op r t hJ (h.call_ne_none hasks) hm hdid⟩
  · obtain ⟨know, hJ, hkp⟩ := hs
    exact ⟨know, hfor know hJ, hkp⟩

/-- **Every event keeps the invariant.** -/
theorem Coherent.step (h : Coherent s)
    (hs : step defaultModel s e = some s') : Coherent s' := by
  refine ⟨h.kept_step hs h.kept (fun know i call => Inv.start)
    (fun know i op r w' hinv => hinv.step) fun know => Inv.forget, fun j hj => ?_⟩
  rcases step_cases hs with ⟨i, call, rfl, hunc, hflt, rfl⟩ | ⟨i, reply, rfl, hmove⟩ | ⟨rfl, rfl⟩
  · by_cases hne : j = i
    · subst hne
      simp at hj
    · rw [s.1.accept_call_of_ne hne] at hj
      simpa [update_of_ne hne] using h.uncalled j hj
  · obtain ⟨op, f, r, t, htask, hexec, rfl⟩ := advance_eq_some hmove
    have hasks : (s.2 i).asks = some op := by rw [htask]; rfl
    have hcld : s.1.call i ≠ none := h.call_ne_none hasks
    rw [(did_of_exec hexec).2.call] at hj
    have hne : j ≠ i := fun heq => hcld (heq ▸ hj)
    simpa [update_of_ne hne] using h.uncalled j hj
  · exact h.uncalled j hj

/-- The states that can be reached from a row whose vector, if it has one, is one of its
text. -/
def Reachable (defaultModel : String) (s : State ι n τ) : Prop :=
  ∃ row es, (∀ m ∈ row, IsPaired m) ∧
    run (Descriptions.step defaultModel) (State.init row) es = some s

/-- **What holds of every state that can be reached.** -/
theorem Reachable.coherent (h : Reachable defaultModel s) : Coherent s := by
  obtain ⟨row, es, hpr, hr⟩ := h
  exact run_invariant (fun _ _ _ h hs => h.step hs) (coherent_init hpr) hr

theorem Reachable.step (h : Reachable defaultModel s)
    (hs : Descriptions.step defaultModel s e = some s') : Reachable defaultModel s' := by
  obtain ⟨row, es, hpr, hr⟩ := h
  exact ⟨row, es ++ [e], hpr, (run_concat_eq_some _).mpr ⟨s, hr, hs⟩⟩

/-- **How the row can change.** The four values of the description stay as they are, unless the
holder of the lock makes a counted write or a deletion. -/
theorem Coherent.row_cases (h : Coherent s)
    (hs : Descriptions.step defaultModel s e = some s') :
    described s'.1.row = described s.1.row ∨
    (∃ i m row k, e = .step i .done ∧ (s.2 i).asks = some (.merge true row) ∧
      s.1.row = some m ∧ s'.1.row = some row.stored ∧ s.1.holder = some i ∧
      k.call = s.1.call i ∧ Changes k m row) ∨
    (∃ i, e = .step i .done ∧ (s.2 i).asks = some .deleteRow ∧ s.1.holder = some i ∧
      s'.1.row = none) := by
  rcases step_cases hs with ⟨i, call, rfl, -, -, rfl⟩ | ⟨i, reply, rfl, hadv⟩ | ⟨rfl, rfl⟩
  · exact Or.inl rfl
  · by_cases hrep : reply = .done
    swap
    · obtain ⟨op, f, r, t, -, hexec, rfl⟩ := advance_eq_some hadv
      exact Or.inl (congrArg _ (row_of_ne_done hexec hrep))
    subst hrep
    obtain ⟨know, op, f, r, hinv, -, htask, ⟨-, hm⟩, -, hdid⟩ := h.advance hadv
    have hi := hinv.tied i
    have hasks : (s.2 i).asks = some op := by rw [htask]; rfl
    generalize hw : s'.1 = w' at hdid
    cases hdid with
    | merged counted row =>
      cases counted with
      | false =>
        obtain ⟨read, hho, -, hcar⟩ := hm
        exact Or.inl (hcar.described_eq.trans (congrArg _ (hi.copied _ hho).symm))
      | true =>
        obtain ⟨m, hho, -, hchg⟩ := hm
        exact Or.inr (Or.inl ⟨i, m, row, know i, rfl, hasks, hi.copied _ hho, rfl,
          hi.holder.mp (by simp [hho]), hi.call, hchg⟩)
    | deleted => exact Or.inr (Or.inr ⟨i, rfl, hasks, hi.holder.mp hm.1, rfl⟩)
    | _ => exact Or.inl rfl
  · exact Or.inl rfl

end ArchonSearch.Descriptions
