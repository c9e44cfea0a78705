import ArchonSearch.Descriptions.Contract

/-!
# The guarded write, and the runs that end in it

Sets, clears, imports, recorded failures and generation runs all end in `write_description`, which
reads the row again under the lock and asks the guard. Its specification (`wp_writeDescription`)
says what a caller knows by the outcome: a write that landed has changed the description, and a
refusal is what the run settles as. With it every call keeps to the contract (`keeps_program`).
-/

namespace ArchonSearch.Descriptions

open Lib Async Option Async

variable {n : ℕ} {τ : Type}

/-! ### The guarded write -/

section Guarded

variable [DecidableEq τ] {k : Know n τ} {row : CollectionMeta n τ}

/-- What the guard says of a row is what its refusal settles as. -/
theorem verdictOver_compared {g : ExpectedState τ} :
    verdictOver g.compared (some row) = (g.refusal row).bind resultOfRefusedFailure := by
  unfold verdictOver ExpectedState.refusal
  by_cases hman : row.descriptionSource = some .manual
  · simp [hman, resultOfRefusedFailure]
  · have hiff : row.described = g.compared ↔ orNone row.description = orNone g.description ∧
        row.descriptionSource = g.source ∧ row.lastDescribed = g.lastDescribed ∧
        row.descriptionStatus = g.status := by
      simp [ExpectedState.ext_iff, CollectionMeta.described, ExpectedState.compared]
    simp only [hman, if_false, ← hiff]
    split_ifs <;> rfl

/-- **A write that changes the description.** -/
theorem wp_writeMetaUnlocked_true {m row : CollectionMeta n τ} (hho : k.hold = .copied (some m))
    (howes : k.owes = false) (hfin : k.finished = false) (hr : Changes k m row) :
    wp (contract n τ)
      (fun _ k' => k' = { k with hold := .copied (some row.stored), wrote := true })
      (fun _ k' => k' = k ∨ k' = { k with hold := .copied (some row.stored), wrote := true })
      (writeMetaUnlocked true row) k := by
  have hlearn (r : Except Raised Unit) : learn (learn k (.merge true row) (.ok ()))
      .bumpDescriptionVersion r = { k with hold := .copied (some row.stored), wrote := true } := by
    ext1 <;> simp [learn, howes]
  refine wp_ask_bind hfin ⟨m, hho, howes, hr⟩ (fun _ => ?_) fun _ _ => Or.inl rfl
  refine wp_ask_bind hfin rfl (fun r => ?_) fun e he => by cases he
  rw [hlearn]
  exact wp_ask hfin trivial (fun _ => rfl) fun _ _ => Or.inr rfl

structure Written (k : Know n τ) (outcome : DescriptionWriteOutcome) (k' : Know n τ) : Prop where
  frame : k' = { k with wrote := k'.wrote, verdict := k'.verdict }
  wrote : outcome = .written → k'.wrote = true
  verdict : k.expects.isSome → k'.verdict = resultOfRefusedFailure outcome
  plain : k.expects = none → k'.verdict = none

omit [DecidableEq τ] in
theorem Written.refl (hver : k.verdict = none) : Written k .lockTimeout k :=
  ⟨rfl, fun h => (by cases h), fun _ => hver, fun _ => hver⟩

structure Ready (k : Know n τ) (guard : Option (ExpectedState τ)) : Prop extends k.Idle where
  verdict : k.verdict = none
  run : IsRun k.call → k.expects.isSome
  guard : ∀ e ∈ k.expects, (∃ g ∈ guard, g.compared = e) ∧ e.source ≠ some .manual

omit [DecidableEq τ] in
theorem Know.Plain.ready (hk : k.Plain) (guard : Option (ExpectedState τ)) : Ready k guard where
  toIdle := hk.toIdle
  verdict := hk.verdict
  run hr := absurd hr hk.run
  guard e he := by
    rw [hk.expects] at he
    cases he

variable {guard : Option (ExpectedState τ)}

/-- **The guarded write.** It needs leave to change every row that its guard lets pass. -/
theorem wp_writeDescription {fields : DescriptionFields τ}
    (hrd : Ready k guard) (hpr : fields.IsPaired)
    (hper : ∀ m : CollectionMeta n τ, (guard.isSome → m.descriptionSource ≠ some .manual) →
      Permits k.call m (fields.applyTo m)) :
    wp (contract n τ) (Written k) (fun _ k' => k' = { k with wrote := k'.wrote })
      (writeDescription fields guard) k := by
  obtain ⟨hk, hver, hr, hguard⟩ := hrd
  refine wp_withLock hk (Written.refl hver) ?_ fun _ => rfl
  refine wp_ask_bind hk.finished ⟨by simp, hver, hr, fun e he => (hguard e he).2⟩
    (fun row => ?_)
    fun e _ => ?_
  swap
  · refine ⟨⟨by simp [learn], hk.owes, hk.finished⟩, ?_⟩
    ext1 <;> simp [learn, Know.unlocked, hk.hold]
  have hloc : Know.Locked (learn { k with hold := .held } .readMetaUnlocked (.ok row)) :=
    ⟨by simp [learn, Hold.see], hk.owes, hk.finished⟩
  have hlearn : learn { k with hold := .held } .readMetaUnlocked (.ok row) = { k with
      hold := .copied row
      verdict := k.expects.bind fun e => verdictOver e row } := by
    ext1 <;> simp [learn, hver, Hold.see]
  rw [hlearn] at hloc ⊢
  have hunl (v : Option GenerationResult) :
      Know.unlocked { k with hold := .copied row, verdict := v } = { k with verdict := v } := by
    ext1 <;> simp [Know.unlocked, hk.hold]
  cases row with
  | none =>
    refine wp_pure.mpr ⟨hloc, ?_⟩
    rw [hunl]
    refine ⟨rfl, fun h => (by cases h), fun hs => ?_, fun hn => ?_⟩
    · obtain ⟨e, he⟩ := isSome_iff_exists.mp hs
      simp [he, verdictOver, resultOfRefusedFailure]
    · simp [hn]
  | some m =>
    simp only
    split
    next refused hrefu =>
      refine wp_pure.mpr ⟨hloc, ?_⟩
      rw [hunl]
      obtain ⟨g, hg, href⟩ := bind_eq_some_iff.mp hrefu
      refine ⟨rfl, ?_, fun hs => ?_, fun hn => ?_⟩
      · rintro rfl
        rcases g.refusal_cases m with h | h | h <;> rw [h] at href <;> cases href
      · obtain ⟨e, he⟩ := isSome_iff_exists.mp hs
        obtain ⟨⟨g', hg', rfl⟩, -⟩ := hguard e he
        obtain rfl : g = g' := some.inj (hg.symm.trans hg')
        simp [he, verdictOver_compared, href]
      · simp [hn]
    next hpass =>
      -- the guard, if there is one, has compared the four values
      have href (g : ExpectedState τ) (hg : g ∈ guard) : g.refusal m = none := by
        rw [mem_def.mp hg] at hpass
        exact hpass
      have heq (e : ExpectedState τ) (he : e ∈ k.expects) :
          verdictOver e (some m) = none ∧ m.described = e := by
        obtain ⟨⟨g, hg, rfl⟩, -⟩ := hguard e he
        have hn := href g hg
        refine ⟨?_, (ExpectedState.refusal_eq_none_iff.mp hn).2⟩
        rw [verdictOver_compared, hn]
        rfl
      have hn : (k.expects.bind fun e => verdictOver e (some m)) = none := by
        rw [bind_eq_none_iff]
        exact fun e he => (heq e he).1
      rw [hn] at hloc ⊢
      have hchg : Changes { k with hold := .copied (some m), verdict := none } m
          (fields.applyTo m) := by
        refine ⟨hpr.applyTo, hper m fun hs => ?_, hr, fun e he => (heq e he).2, rfl⟩
        obtain ⟨g, hg⟩ := isSome_iff_exists.mp hs
        exact (ExpectedState.refusal_eq_none_iff.mp (href g hg)).1
      refine wp_bind.mpr (wp_mono
        (wp_writeMetaUnlocked_true rfl hloc.owes hloc.finished hchg) ?_ ?_)
      · rintro - _ rfl
        refine wp_pure.mpr ⟨⟨by simp, hk.owes, hk.finished⟩, ?_⟩
        refine ⟨?_, fun _ => rfl, fun _ => rfl, fun _ => rfl⟩
        ext1 <;> simp [Know.unlocked, hk.hold]
      · rintro e _ (rfl | rfl)
        · refine ⟨⟨by simp, hk.owes, hk.finished⟩, ?_⟩
          ext1 <;> simp [Know.unlocked, hk.hold, hver]
        · refine ⟨⟨by simp, hk.owes, hk.finished⟩, ?_⟩
          ext1 <;> simp [Know.unlocked, hk.hold, hver]

/-! ### Sets, clears and imports -/

variable {source : DescriptionSource}

/-- **The description writer** changes a text as the guarded write does. -/
theorem wp_applyText {defaultModel text : String}
    {baseline : FieldChange ℕ} (hrd : Ready k guard)
    (hper : ∀ now vector h (m : CollectionMeta n τ),
      (guard.isSome → m.descriptionSource ≠ some .manual) →
        Permits k.call m ((textFields text source baseline now vector h).applyTo m)) :
    wp (contract n τ) (fun result k' => Written k result.outcome k')
      (fun _ k' => k' = { k with wrote := k'.wrote })
      (applyText defaultModel text source baseline guard) k := by
  unfold applyText
  split_ifs with hchk
  swap
  · exact wp_raise.mpr rfl
  refine wp_ask_bind hrd.finished trivial (fun row => ?_) fun _ _ => rfl
  cases row with
  | none =>
    refine wp_pure.mpr ⟨?_, fun h => (by cases h), fun hs => ?_, fun hn => ?_⟩
    · ext1 <;> simp [learn, hrd.hold, Hold.see]
    · obtain ⟨e, he⟩ := isSome_iff_exists.mp hs
      simp [learn, he, hrd.verdict, verdictOfGone, resultOfRefusedFailure]
    · simp [learn, hn, hrd.verdict]
  | some row =>
    have hlearn : learn k .getCollectionMeta (.ok (some row)) = k := by
      ext1 <;> simp [learn, hrd.hold, hrd.verdict, Hold.see, verdictOfGone]
    rw [hlearn]
    refine wp_bind.mpr (wp_mono (wp_embed hrd.finished) ?_ fun _ _ h => by rw [h])
    rintro vector _ ⟨rfl, hvec⟩
    refine neutral_now.wp_bind hrd.finished (fun now => ?_) fun _ => rfl
    exact wp_bind.mpr (wp_writeDescription hrd (isPaired_textFields hvec) (hper now vector hchk))

variable {k' : Know n τ} {outcome : DescriptionWriteOutcome}

omit [DecidableEq τ] in
/-- A call that is no run is plain again after a write. -/
theorem Written.isPlain
    (h : Written k outcome k') (hk : k.Plain) : k'.Plain := by
  have hver := h.plain hk.expects
  rw [h.frame]
  exact ⟨⟨hk.hold, hk.owes, hk.finished⟩, hk.expects, hk.run, hver⟩

omit [DecidableEq τ] in
theorem Know.Plain.of_wrote (h : k' = { k with wrote := k'.wrote })
    (hk : k.Plain) : k'.Plain := by
  rw [h]
  exact ⟨⟨hk.hold, hk.owes, hk.finished⟩, hk.expects, hk.run, hk.verdict⟩

theorem keeps_set (hk : k.Plain) {text : String} (hc : k.call = some (.set text))
    (defaultModel : String) : Keeps (contract n τ) (Call.program defaultModel (.set text)) k := by
  refine wp_bind.mpr (wp_mono (wp_applyText (hk.ready none) ?_) (fun _ _ _ => trivial)
    fun _ _ _ => trivial)
  intro now vector h m _
  rw [hc]
  exact ⟨orNone_of_checkDescriptionText h, rfl, rfl⟩

theorem keeps_clear (hk : k.Plain) (hc : k.call = some .clear) (defaultModel : String) :
    Keeps (contract n τ) (Call.program defaultModel .clear) k := by
  refine wp_bind.mpr (wp_bind.mpr (wp_mono
    (wp_writeDescription (hk.ready none) isPaired_clearFields ?_) (fun _ _ _ => trivial)
    fun _ _ _ => trivial))
  intro m _
  rw [hc]
  exact Or.inl trivial

variable {expected : ExpectedState τ}

theorem keeps_recordFailure (hk : k.Plain)
    (hc : k.call = some (.recordFailure expected)) (defaultModel : String) :
    Keeps (contract n τ) (Call.program defaultModel (.recordFailure expected)) k := by
  refine wp_bind.mpr (wp_mono
    (wp_writeDescription (hk.ready (some expected)) isPaired_failureFields ?_)
    (fun _ _ _ => trivial) fun _ _ _ => trivial)
  intro m hman
  rw [hc]
  exact Or.inr (hman rfl)

theorem restores_ensureMetaRow (hk : k.Plain) (model : String) :
    Restores (ensureMetaRow model) k := by
  refine restores_lockedCollectionMeta hk fun row => ?_
  cases row with
  | some m => exact staysWithin_pure (by simp)
  | none =>
    exact (staysWithin_writeMetaUnlocked hk.toIdle (carries_none rfl rfl)).bind
      fun _ h' hh' => staysWithin_pure hh'

theorem restores_removeBareMetaRow (hk : k.Plain) :
    Restores (removeBareMetaRow : Program n τ Unit) k := by
  refine wp_bind.mpr (wp_attempt.mpr (wp_mono
    (restores_lockedCollectionMeta hk fun row => ?_) (fun _ _ h => h) ?_))
  · cases row with
    | none => exact staysWithin_pure (by simp)
    | some m =>
      simp only
      split_ifs
      · exact staysWithin_deleteCollectionMeta hk (by simp)
      · exact staysWithin_pure (by simp)
  · rintro (_ | _) k' hk'
    · exact hk'
    · exact hk'

theorem keeps_restore (hk : k.Plain) {model text : String}
    (hc : k.call = some (.restore model text source)) (defaultModel : String) :
    Keeps (contract n τ) (Call.program defaultModel (.restore model text source)) k := by
  have hundo (created : Bool) {k' : Know n τ} (hk' : k'.Plain) :
      Restores (if created then removeBareMetaRow else pure ()) k' := by
    split_ifs
    · exact restores_removeBareMetaRow hk'
    · rfl
  change Keeps (contract n τ) (restoreDescription defaultModel model text source) k
  unfold restoreDescription
  split_ifs
  · trivial
  refine wp_bind.mpr (wp_mono (restores_ensureMetaRow hk model) ?_ fun _ _ _ => trivial)
  rintro created _ rfl
  refine wp_bind.mpr (wp_tryCatch.mpr (wp_mono (wp_applyText (hk.ready none) ?_) ?_ ?_))
  · intro now vector h m _
    rw [hc]
    exact Or.inl trivial
  · intro result k' hres
    have hk' := hres.isPlain hk
    split
    · trivial
    · exact wp_bind.mpr (wp_mono (hundo created hk') (fun _ _ _ => trivial) fun _ _ _ => trivial)
    · exact (hundo created hk').keeps
  · intro e k' hk'
    exact wp_bind.mpr (wp_mono (hundo created (hk.of_wrote hk')) (fun _ _ _ => trivial)
      fun _ _ _ => trivial)

/-! ### Generation runs -/

def HasRead (k : Know n τ) (row : Option (CollectionMeta n τ)) (k' : Know n τ) : Prop :=
  k' = { k with
    took := true
    fresh := true
    wrote := false
    expects := row.map CollectionMeta.described }

structure Starting (k : Know n τ) : Prop extends k.Idle where
  verdict : k.verdict = none
  isRun : IsRun k.call
  asked : k.asked = false
  remembered : k.remembered = false

/-- The loop is about to read the row, and all it knows of an earlier read will be replaced. -/
theorem Starting.wp_readRowLoop (hk : Starting k) :
    ∀ (attempts : ℕ) (last : Option (CollectionMeta n τ)) (k' : Know n τ),
      k' = { k with
        took := k'.took, fresh := k'.fresh, wrote := k'.wrote, expects := k'.expects } →
      (attempts = 0 → HasRead k last k') →
      wp (contract n τ) (fun row k' => HasRead k row k') (fun _ k' => HasRead k none k')
        (readRowLoop attempts last) k'
  | 0, last, k', _, hl => hl rfl
  | attempts + 1, last, k', hframe, _ => by
    have hfin : k'.finished = false := by
      rw [hframe]
      exact hk.finished
    have hm : May (learn k' .takeVersion (.ok ())) .readRow := by
      rw [hframe]
      exact ⟨hk.isRun, rfl, hk.verdict⟩
    have hrd (row : Option (CollectionMeta n τ)) : HasRead k row { k' with
        took := true
        fresh := true
        wrote := false
        expects := row.map CollectionMeta.described } := by
      rw [hframe]
      rfl
    have hrem : May k' .takeVersion := by
      rw [hframe]
      exact hk.remembered
    refine wp_ask_bind hfin hrem (fun _ => ?_) fun e he => by cases he
    refine wp_ask_bind hfin hm (fun row => ?_) fun e _ => hrd none
    refine wp_ask_bind hfin trivial ?_ fun e he => by cases he
    rintro (_ | _)
    · exact hk.wp_readRowLoop attempts row _ (hrd row) fun _ => hrd row
    · exact hrd row

/-- **The read of the row a run starts from.** -/
theorem Starting.wp_readRow (hk : Starting k) :
    wp (contract n τ) (fun row k' => HasRead k row k') (fun _ k' => HasRead k none k') readRow k :=
  hk.wp_readRowLoop rowReadAttempts none k rfl fun h => by cases h

structure Breaking (k : Know n τ) : Prop extends k.Idle where
  isRun : IsRun k.call
  verdict : k.verdict = none
  remembered : k.remembered = false

structure Settles (k : Know n τ) (result : GenerationResult) : Prop where
  finished : k.finished = false
  isRun : IsRun k.call
  settle : MaySettle k result

structure Landing (k : Know n τ) (expected : ExpectedState τ) : Prop
    extends Ready k (some expected) where
  isRun : IsRun k.call
  fresh : k.fresh = true
  remembered : k.remembered = false

omit [DecidableEq τ] in
/-- Whether a write landed makes no difference to a run that goes on. -/
theorem Landing.of_wrote (hk : Landing k expected)
    (h : k' = { k with wrote := k'.wrote }) : Landing k' expected := by
  rw [h]
  exact ⟨⟨⟨hk.hold, hk.owes, hk.finished⟩, hk.verdict, hk.run, hk.guard⟩, hk.isRun, hk.fresh,
    hk.remembered⟩

omit [DecidableEq τ] in
/-- A run that has not had the lock in time may try again. -/
theorem Written.landing
    (h : Written k .lockTimeout k') (hk : Landing k expected) : Landing k' expected := by
  have hver : k'.verdict = none := h.verdict (hk.run hk.isRun)
  rw [h.frame]
  exact ⟨⟨⟨hk.hold, hk.owes, hk.finished⟩, hver, hk.run, hk.guard⟩, hk.isRun, hk.fresh,
    hk.remembered⟩

variable {result : GenerationResult}

section
omit [DecidableEq τ]

/-- A run that was refused settles as that, and one that has changed the row as it likes. -/
theorem Written.settles (h : Written k outcome k')
    (hk : Landing k expected) (hres : ∀ refused, resultOfRefusedFailure outcome = some refused →
      result = refused)
    (hwrt : resultOfRefusedFailure outcome = none →
      outcome = .written ∧ (result = .failed ∨ result = .generated)) :
    Settles k' result := by
  have hver := h.verdict (hk.run hk.isRun)
  refine ⟨?_, ?_, fun hrem => ?_, fun refused href => ?_, fun hn => ?_⟩
  · rw [h.frame]
    exact hk.finished
  · rw [h.frame]
    exact hk.isRun
  · rw [h.frame] at hrem
    simp [hk.remembered] at hrem
  · exact hres refused (hver.symm.trans href)
  · obtain ⟨hout, hres⟩ := hwrt (hver.symm.trans hn)
    have hwrote := h.wrote hout
    exact ⟨fun _ => Or.inr hwrote, fun _ => hwrote, fun _ => hres.imp_right Or.inl⟩

theorem permits_of_isRun (hr : IsRun k.call) {m row : CollectionMeta n τ}
    (hman : m.descriptionSource ≠ some .manual) : Permits k.call m row := by
  unfold IsRun at hr
  split at hr
  next hc =>
    rw [hc]
    exact Or.inr hman
  next => exact hr.elim

theorem Landing.breaking (hk : Landing k expected) : Breaking k :=
  ⟨hk.toIdle, hk.isRun, hk.verdict, hk.remembered⟩

theorem Breaking.settles_shutdown (hk : Breaking k) : Settles k .shuttingDown := by
  refine ⟨hk.finished, hk.isRun, ?_, ?_,
    fun _ => ⟨fun h => ?_, fun h => ?_, fun _ => Or.inr (Or.inr rfl)⟩⟩
  · simp [hk.remembered]
  · simp [hk.verdict]
  · cases h
  · cases h

end

/-- A run that has remembered its failure settles as failed. -/
theorem Breaking.wp_remember {α : Type} (hk : Breaking k) (hfr : k.fresh = true)
    {p : Program n τ α} {Q : α → Know n τ → Prop} {E : Raised → Know n τ → Prop}
    (hp : ∀ k', Settles k' .failed → wp (contract n τ) Q E p k') :
    wp (contract n τ) Q E (ask .rememberUnstoredFailure >>= fun _ => p) k := by
  refine wp_ask_bind hk.finished hfr
    (fun _ => hp _ ⟨hk.finished, hk.isRun, fun _ => rfl, ?_, fun _ => ?_⟩)
    fun e he => by cases he
  · simp [learn, hk.verdict]
  · exact ⟨fun _ => Or.inl rfl, fun h => (by cases h), fun _ => Or.inl rfl⟩

abbrev SettlesOrCancelled (p : Program n τ GenerationSettlement) (k : Know n τ) : Prop :=
  wp (contract n τ) (fun settlement k' => Settles k' settlement.result)
    (fun e k' => e = .cancelled ∧ Breaking k') p k

/-- **The failure of a run is recorded, refused or remembered.** -/
theorem Landing.settles_recordFailureOf (hk : Landing k expected)
    (reason : DescriptionFailureReason) (detail : String) :
    SettlesOrCancelled (recordFailureOf expected reason detail) k := by
  refine wp_bind.mpr (wp_attempt.mpr (wp_mono
    (wp_writeDescription hk.toReady isPaired_failureFields
      fun m hman => permits_of_isRun hk.isRun (hman rfl)) ?_ ?_))
  · intro recorded k' hwrt
    simp only
    split_ifs with htim
    · subst htim
      have hk' := hwrt.landing hk
      exact hk'.breaking.wp_remember hk'.fresh fun _ hst => hst
    · refine wp_bind.mpr (wp_pure.mpr (wp_pure.mpr (hwrt.settles hk ?_ ?_)))
      · intro refused href
        simp [href]
      · -- no refusal and no timeout: the failure is stored
        intro href
        refine ⟨?_, by simp [href]⟩
        revert href htim
        cases recorded <;> simp [resultOfRefusedFailure]
  · rintro (_ | _) k' hframe
    · have hk' := hk.of_wrote hframe
      exact hk'.breaking.wp_remember hk'.fresh fun _ hst => hst
    · exact ⟨rfl, (hk.of_wrote hframe).breaking⟩

/-- **A draft lands.** -/
theorem Landing.settles_land {drafted : Draft τ} (hk : Landing k drafted.expected)
    (defaultModel : String) : SettlesOrCancelled (land defaultModel drafted) k := by
  unfold land
  cases drafted.outcome with
  | failed reason detail => exact hk.settles_recordFailureOf reason detail
  | generated text =>
    refine wp_bind.mpr (wp_attempt.mpr (wp_mono (wp_applyText hk.toReady
      fun _ _ _ m hman => permits_of_isRun hk.isRun (hman rfl)) ?_ ?_))
    · rintro ⟨outcome, vector⟩ k' hwrt
      cases outcome with
      | lockTimeout => exact (hwrt.landing hk).settles_recordFailureOf _ _
      | written => exact hwrt.settles hk (fun _ h => (by cases h)) fun _ => ⟨rfl, Or.inr rfl⟩
      | _ => exact hwrt.settles hk (fun _ h => some.inj h) fun h => (by cases h)
    · rintro (_ | _) k' hframe
      · exact (hk.of_wrote hframe).settles_recordFailureOf _ _
      · exact ⟨rfl, (hk.of_wrote hframe).breaking⟩

variable {kind : GenerationKind}

section
omit [DecidableEq τ]

theorem refusal_eq_some (h : refusal kind row = some result) :
    result = .refusedManual ∨ result = .notRequired := by
  unfold refusal at h
  split_ifs at h <;> cases h <;> simp

/-- Without a draft there is nothing to land, and the run has been told why. -/
theorem Starting.settles {row : Option (CollectionMeta n τ)} (hk : Starting k)
    (h : HasRead k row k')
    (hfa : result ≠ .failed) (hgen : result ≠ .generated) : Settles k' result := by
  subst h
  refine ⟨hk.finished, hk.isRun, fun hrem => ?_, fun refused href => ?_, fun _ => ?_⟩
  · simp [hk.remembered] at hrem
  · simp [hk.verdict] at href
  · refine ⟨fun h => absurd h hfa, fun h => absurd h hgen, fun hask => ?_⟩
    simp [hk.asked] at hask

theorem Starting.landing (hk : Starting k)
    (h : HasRead k (some row) k') (hman : row.descriptionSource ≠ some .manual) :
    Landing { k' with asked := true } (ExpectedState.ofMeta row) := by
  subst h
  refine ⟨⟨⟨hk.hold, hk.owes, hk.finished⟩, hk.verdict, fun _ => rfl, ?_⟩, hk.isRun, rfl,
    hk.remembered⟩
  rintro e ⟨⟩
  exact ⟨⟨_, rfl, ExpectedState.compared_ofMeta row⟩, hman⟩

theorem source_of_refusal_eq_none
    (h : refusal kind row = none) : row.descriptionSource ≠ some .manual := by
  intro hman
  simp [refusal, hman] at h

theorem Starting.breaking (hk : Starting k) : Breaking k :=
  ⟨hk.toIdle, hk.isRun, hk.verdict, hk.remembered⟩

end

/-- **A draft** is something to land, unless there is a reason to settle at once. A failure to
read the row is one that can be remembered. -/
theorem Starting.wp_draft (hk : Starting k) (kind : GenerationKind) :
    wp (contract n τ)
      (fun drafted k' => drafted.elim (fun settlement => Settles k' settlement.result)
        fun d => Landing k' d.expected)
      (fun e k' => Breaking k' ∧ (e = .cancelled ∨ k'.fresh = true)) (draft kind) k := by
  refine wp_ask_bind hk.finished trivial (fun _ => ?_) fun e he => ?_
  swap
  · exact ⟨hk.breaking, Or.inl (by simpa [Op.mayRaise] using he)⟩
  refine wp_bind.mpr (wp_mono hk.wp_readRow ?_ ?_)
  swap
  · rintro e k' hrd
    subst hrd
    exact ⟨⟨⟨hk.hold, hk.owes, hk.finished⟩, hk.isRun, hk.verdict, hk.remembered⟩, Or.inr rfl⟩
  intro row k' hrd
  cases row with
  | none => exact wp_pure.mpr (hk.settles hrd (by simp) (by simp))
  | some row =>
    simp only
    split
    next result href =>
      rcases refusal_eq_some href with rfl | rfl <;>
        exact wp_pure.mpr (hk.settles hrd (by simp) (by simp))
    next href =>
      have hlan := hk.landing hrd (source_of_refusal_eq_none href)
      have hfin : k'.finished = false := hlan.finished
      refine wp_bind.mpr (wp_bind.mpr (wp_attempt.mpr ?_))
      refine wp_ask hfin trivial (fun outcome => hlan) fun e _ => ?_
      cases e with
      | error typeName => exact hlan
      | cancelled => exact ⟨hlan.breaking, Or.inl rfl⟩

/-- **A run settles**, or is cancelled. -/
theorem Starting.settles_settle (hk : Starting k) (defaultModel : String) (kind : GenerationKind) :
    SettlesOrCancelled (settle defaultModel kind) k := by
  refine wp_bind.mpr (wp_attempt.mpr (wp_bind.mpr (wp_mono (hk.wp_draft kind) ?_ ?_)))
  · rintro (settlement | drafted) k' hk'
    · exact wp_pure.mpr hk'
    · refine wp_mono (hk'.settles_land defaultModel) (fun _ _ h => h) ?_
      rintro _ k' ⟨rfl, hk'⟩
      exact ⟨rfl, hk'⟩
  · rintro (_ | _) k' ⟨hk', hfr⟩
    · exact hk'.wp_remember (hfr.resolve_left (by simp)) fun _ hst => hst
    · exact ⟨rfl, hk'⟩

/-- **A generation run keeps to the contract.** -/
theorem Starting.keeps_runGeneration (hk : Starting k) (defaultModel : String)
    (kind : GenerationKind) : Keeps (contract n τ) (runGeneration defaultModel kind) k := by
  refine wp_bind.mpr (wp_tryCatch.mpr (wp_mono (hk.settles_settle defaultModel kind) ?_ ?_))
  · exact fun settlement k' hk' => wp_ask hk'.finished ⟨hk'.isRun, hk'.settle⟩
      (fun _ => trivial)
      fun e he => by cases he
  · rintro _ k' ⟨-, hk'⟩
    have hst := hk'.settles_shutdown
    exact wp_ask hst.finished ⟨hst.isRun, hst.settle⟩ (fun _ => trivial) fun e he => by cases he

/-! ### All of them -/

def Know.start (call : Call n τ) : Know n τ := { call := some call }

/-- **Every call keeps to the contract.** -/
theorem keeps_program (defaultModel : String) (call : Call n τ) :
    Keeps (contract n τ) (call.program defaultModel) (.start call) := by
  have hidle : (Know.start call).Idle := ⟨rfl, rfl, rfl⟩
  have hpl (hr : ¬IsRun (some call)) : (Know.start call).Plain := ⟨hidle, rfl, hr, rfl⟩
  cases call with
  | set text => exact keeps_set (hpl (by simp [IsRun])) rfl defaultModel
  | clear => exact keeps_clear (hpl (by simp [IsRun])) rfl defaultModel
  | restore model text source => exact keeps_restore (hpl (by simp [IsRun])) rfl defaultModel
  | recordFailure expected => exact keeps_recordFailure (hpl (by simp [IsRun])) rfl defaultModel
  | generation kind =>
    exact Starting.keeps_runGeneration ⟨hidle, rfl, trivial, rfl, rfl⟩ defaultModel kind
  | recompute embedder force =>
    exact (restores_recomputeCollectionMeta (hpl (by simp [IsRun])) _ _ _).keeps
  | touch lastIndexed => exact (restores_touchLastIndexed (hpl (by simp [IsRun])) _).keeps
  | ingest model batch count =>
    exact (restores_ingestChunks (hpl (by simp [IsRun])) _ _ _).keeps
  | deleteDocument => exact (restores_deleteDocument (hpl (by simp [IsRun]))).keeps
  | patch model ttl => exact (restores_patchCollection (hpl (by simp [IsRun])) _ _).keeps
  | deleteCollection => exact (restores_deleteCollection (hpl (by simp [IsRun]))).keeps

end Guarded

end ArchonSearch.Descriptions
