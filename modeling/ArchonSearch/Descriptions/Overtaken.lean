import ArchonSearch.Descriptions.Invariant

/-!
# A generation that was overtaken

The guard of a run compares four values of the row with those that the run started from, and not a
version. As long as no write gives the row back the values that the run in flight started from,
after they have been others (`returns`), equal values mean that nothing has changed
(`Coherent.stillChanged`): the guarded write of a run that was overtaken is refused, and the run
settles as what the guard said (`overtaken_isDiscarded`).

A set and a clear during the call of the model do give them back if the row had no description to
start with, and the generated text lands (`overtaken_lands_afterClear`).
-/

namespace ArchonSearch.Descriptions

open Lib Async Function Option

variable {ι : Type} {n : ℕ} {τ : Type}

/-! ### Values that come back -/

def stores (s : State ι n τ) : Event ι n τ → Option (ExpectedState τ)
  | .step i .done =>
    match (s.2 i).asks with
    | some (.merge _ row) => some row.described
    | some .deleteRow => some .blank
    | _ => none
  | _ => none

variable [DecidableEq ι] [DecidableEq τ]

/-- Whether the event gives the row back the values that the run in flight started from, after
they have been others. -/
def returns (s : State ι n τ) (e : Event ι n τ) : Bool :=
  s.1.inFlight.any fun i => (s.1.started i).any fun started =>
    decide (described s.1.row ≠ started) && decide (stores s e = some started)

omit [DecidableEq ι] [DecidableEq τ] in
def World.StillChanged (w : World ι n τ) : Prop :=
  ∀ i e, w.inFlight = some i → w.started i = some e → w.overtaken i = true → described w.row ≠ e

variable {i j : ι} {w w' : World ι n τ} {op : Op n τ} {r : Except Raised (Ans op)}

/-- What an operation adds to the history of a run that is in flight. -/
theorem Did.overtaken (h : Did i w op r w') (hflt : w'.inFlight = some j) :
    w.inFlight = some j ∧ (w'.overtaken j = true →
      w'.started j = w.started j ∧
        (w.overtaken j = true ∨ described w'.row ≠ described w.row)) := by
  have hrd : (w.reads i).overtaken j = true → (w.reads i).started j = w.started j ∧
      (w.overtaken j = true ∨ described (w.reads i).row ≠ described w.row) := by
    by_cases hj : j = i
    · subst hj
      simp [World.reads]
    · simp only [World.reads, update_of_ne hj]
      exact fun hover => ⟨trivial, Or.inl hover⟩
  cases h with
  | readRow => exact ⟨hflt, hrd⟩
  | readRowFailed e => exact ⟨hflt, hrd⟩
  | merged counted row =>
    cases counted <;> exact ⟨hflt, fun hover => ⟨rfl, by simpa [World.write, World.replaceRow]
      using hover⟩⟩
  | deleted => exact ⟨hflt, fun hover => ⟨rfl, by simpa [World.replaceRow] using hover⟩⟩
  | finished settlement => cases hflt
  | _ => exact ⟨hflt, fun hover => ⟨rfl, Or.inl hover⟩⟩

variable {defaultModel : String} {s s' : State ι n τ} {e : Event ι n τ}

theorem Coherent.stores_eq (h : Coherent s)
    (hs : Descriptions.step defaultModel s e = some s')
    (hchgd : described s'.1.row ≠ described s.1.row) :
    stores s e = some (described s'.1.row) := by
  rcases h.row_cases hs with heq | ⟨i, m, row, k, rfl, hasks, -, hr, -⟩ | ⟨i, rfl, hasks, -, hr⟩
  · exact absurd heq hchgd
  · simp only [stores, hasks, hr]
    exact congrArg some row.described_stored.symm
  · simp only [stores, hasks, hr]
    rfl

/-- **A run that was overtaken can see it in the row**, unless a write has returned it. -/
theorem Coherent.stillChanged (h : Coherent s)
    (hst : Descriptions.step defaultModel s e = some s') (hnot : returns s e = false)
    (hs : s.1.StillChanged) : s'.1.StillChanged := by
  intro j started hflt hsta hover heq
  rcases step_cases hst with ⟨i, call, rfl, hunc, -, rfl⟩ | ⟨i, reply, rfl, hmove⟩ | ⟨rfl, rfl⟩
  · obtain ⟨know, hinv, -⟩ := h.kept
    have hn := ((hinv.tied i).unstarted hunc).2
    simp only [World.accept] at hflt hsta
    split_ifs at hflt
    · cases hflt
      rw [hn] at hsta
      cases hsta
    · exact hs j started hflt hsta hover heq
  · obtain ⟨know, op, f, r, -, -, -, -, -, hdid⟩ := h.advance hmove
    obtain ⟨hflightBefore, hhis⟩ := hdid.overtaken hflt
    obtain ⟨hstartedBefore, hbef⟩ := hhis hover
    rw [hstartedBefore] at hsta
    by_cases hchgd : described s'.1.row = described s.1.row
    · have hoverBefore := hbef.resolve_right fun hne => hne hchgd
      exact hs j started hflightBefore hsta hoverBefore (hchgd.symm.trans heq)
    · -- the values are what they were, and a write has just made them so
      have hstor := h.stores_eq hst hchgd
      rw [heq] at hstor hchgd
      simp [returns, hflightBefore, hsta, hstor, Ne.symm hchgd] at hnot
  · exact hs j started hflt hsta hover heq

/-! ### The guard -/

def IsRefusal (result : GenerationResult) : Prop := result = .refusedManual ∨ result = .superseded

variable {row : Option (CollectionMeta n τ)}

omit [DecidableEq ι] in
/-- The guard refuses a row that does not have the values expected. -/
theorem verdictOver_of_ne {e : ExpectedState τ}
    (hne : described row ≠ e) :
    ∃ refused, verdictOver e row = some refused ∧ IsRefusal refused := by
  cases row with
  | none => exact ⟨.superseded, rfl, Or.inr rfl⟩
  | some row =>
    by_cases hman : row.descriptionSource = some .manual
    · exact ⟨.refusedManual, by simp [verdictOver, hman], Or.inl rfl⟩
    · have hne' : row.described ≠ e := hne
      exact ⟨.superseded, by simp [verdictOver, hman, hne'], Or.inr rfl⟩

omit [DecidableEq ι] in
theorem verdict_learn {k : Know n τ} {refused : GenerationResult} (h : k.verdict = some refused) :
    (learn k op r).verdict = some refused := by
  unfold learn
  split <;> simp [h]

structure Discarded (i : ι) (w : World ι n τ) (know : ι → Know n τ) : Prop where
  inv : Inv w know
  called : w.call i ≠ none
  verdict : ∃ refused, (know i).verdict = some refused ∧ IsRefusal refused

/-- **What the guard has refused stays refused.** -/
theorem Coherent.discarded (h : Coherent s)
    (hst : Descriptions.step defaultModel s e = some s')
    (hs : Kept (contract n τ) (Discarded i) s) :
    Kept (contract n τ) (Discarded i) s' := by
  refine h.kept_step hst hs ?_ ?_ ?_
  · intro know j call hJ hunc hflt
    have hj : i ≠ j := fun heq => hJ.called (heq ▸ hunc)
    refine ⟨hJ.inv.start hunc hflt, ?_, ?_⟩
    · rw [World.accept_call_of_ne _ hj]
      exact hJ.called
    · rw [update_of_ne hj]
      exact hJ.verdict
  · intro know j op r w' hJ hcld hm hdid
    refine ⟨hJ.inv.step hcld hm hdid, hdid.call ▸ hJ.called, ?_⟩
    obtain ⟨refused, hver, href⟩ := hJ.verdict
    refine ⟨refused, ?_, href⟩
    by_cases hj : i = j
    · subst hj
      rw [update_self]
      exact verdict_learn hver
    · rwa [update_of_ne hj]
  · exact fun know hJ => ⟨hJ.inv.forget, hJ.called, hJ.verdict⟩

omit [DecidableEq ι] [DecidableEq τ] in
/-- Where no write has returned the row of the run in flight, a run that goes on has the values
it expects in the row unless it was overtaken. -/
theorem Inv.ne_of_overtaken {know : ι → Know n τ} {e : ExpectedState τ} (h : Inv w know)
    (hchgd : w.StillChanged) (hr : IsRun (w.call i)) (hover : w.overtaken i = true)
    (hfin : (know i).finished = false) (he : (know i).expects = some e) :
    described w.row ≠ e :=
  hchgd i e (((h.tied i).inFlight hr).mp hfin) ((h.tied i).expects e he).1 hover

omit [DecidableEq ι] in
theorem Coherent.asks_ne_merge (h : Coherent s) (hchgd : s.1.StillChanged)
    (hr : IsRun (s.1.call i)) (hover : s.1.overtaken i = true) (row : CollectionMeta n τ) :
    (s.2 i).asks ≠ some (.merge true row) := by
  intro hasks
  obtain ⟨know, hinv, hkp⟩ := h.kept
  obtain ⟨hfin, m, hho, -, hchg⟩ := (hkp i).may hasks
  have hi := hinv.tied i
  obtain ⟨e, he⟩ := isSome_iff_exists.mp (hchg.started (hi.call ▸ hr))
  refine hinv.ne_of_overtaken hchgd hr hover hfin he ?_
  rw [hi.copied _ hho]
  exact hchg.expected e he

/-- **The guard refuses a run that was overtaken.** -/
theorem Coherent.discarded_of_guard (h : Coherent s) (hchgd : s.1.StillChanged)
    (hr : IsRun (s.1.call i)) (hover : s.1.overtaken i = true)
    (hasks : (s.2 i).asks = some .readMetaUnlocked)
    (hs : Descriptions.step defaultModel s (.step i .done) = some s') :
    Kept (contract n τ) (Discarded i) s' := by
  have hcld : s.1.call i ≠ none := h.call_ne_none hasks
  refine h.kept.advance hs fun know op r t hinv hop hm hexec => ?_
  obtain rfl : .readMetaUnlocked = op := some.inj (hasks.symm.trans hop)
  obtain ⟨hcan, hdid⟩ := did_of_exec hexec
  refine ⟨hcan, hinv.step hcld hm hdid, hdid.call ▸ hcld, ?_⟩
  cases hexec
  have hi := hinv.tied i
  obtain ⟨hfin, -, hver, hsta, -⟩ := hm
  obtain ⟨e, he⟩ := isSome_iff_exists.mp (hsta (hi.call ▸ hr))
  obtain ⟨refused, href, hrefu⟩ :=
    verdictOver_of_ne (hinv.ne_of_overtaken hchgd hr hover hfin he)
  exact ⟨refused, by simp [learn, hver, he, href], hrefu⟩

omit [DecidableEq ι] in
/-- What the guard has refused is not written, and settles as the guard said. -/
theorem discarded_settles (h : Kept (contract n τ) (Discarded i) s) :
    (∀ row, (s.2 i).asks ≠ some (.merge true row)) ∧ ∀ r, s.1.settled i = some r → IsRefusal r := by
  obtain ⟨know, ⟨hinv, -, refused, hver, href⟩, hkp⟩ := h
  refine ⟨fun row hasks => ?_, fun r hr => ?_⟩
  · obtain ⟨-, m, -, -, hchg⟩ := (hkp i).may hasks
    rw [hchg.verdict] at hver
    cases hver
  · rwa [((hinv.tied i).settled r hr).2 refused hver]

/-! ### Runs of events -/

/-- In a run of events none of which returns the row of the run in flight, what was overtaken
can be seen in the row. -/
theorem stillChanged_of_along {es : List (Event ι n τ)}
    (hpr : ∀ m ∈ row, IsPaired m)
    (hnot : Along (Descriptions.step defaultModel) (fun u e => returns u e = false) (.init row) es)
    (hr : run (Descriptions.step defaultModel) (.init row) es = some s) :
    Coherent s ∧ s.1.StillChanged := by
  refine run_invariant_along (I := fun u : State ι n τ => Coherent u ∧ u.1.StillChanged) ?_ hnot
    ⟨coherent_init hpr, fun i e hflt => (by cases hflt)⟩ hr
  exact fun u e u' hnot hu hs => ⟨hu.1.step hs, hu.1.stillChanged hs hnot hu.2⟩

/-- **A generation that was overtaken is discarded**, in every run of events none of which gives
the row back the values that the run in flight started from. A run that was overtaken does not
write; and if it comes to the guard then, it never writes any more, and settles as refused, over
whatever else happens. -/
theorem overtaken_isDiscarded (defaultModel : String) {row : Option (CollectionMeta n τ)}
    {es : List (Event ι n τ)} (hpaired : ∀ m ∈ row, IsPaired m)
    (hnot : Along (Descriptions.step defaultModel) (fun u e => returns u e = false) (.init row) es)
    (hrun : run (Descriptions.step defaultModel) (.init row) es = some s)
    (hgeneration : IsRun (s.1.call i)) (hover : s.1.overtaken i = true) :
    (∀ row', (s.2 i).asks ≠ some (.merge true row')) ∧
      ∀ (s' t : State ι n τ) (es' : List (Event ι n τ)),
        (s.2 i).asks = some .readMetaUnlocked →
        Descriptions.step defaultModel s (.step i .done) = some s' →
        run (Descriptions.step defaultModel) s' es' = some t →
        (∀ row', (t.2 i).asks ≠ some (.merge true row')) ∧
          ∀ r, t.1.settled i = some r → r = .refusedManual ∨ r = .superseded := by
  obtain ⟨hs, hchgd⟩ := stillChanged_of_along hpaired hnot hrun
  refine ⟨hs.asks_ne_merge hchgd hgeneration hover, ?_⟩
  intro s' t es' hasks hst hr'
  have hdis := hs.discarded_of_guard hchgd hgeneration hover hasks hst
  refine discarded_settles (run_invariant
    (I := fun u => Coherent u ∧ Kept (contract n τ) (Discarded i) u) ?_
    ⟨hs.step hst, hdis⟩ hr').2
  exact fun u e u' hu hst => ⟨hu.1.step hst, hu.1.discarded hst hu.2⟩

def runBegins : List (Event ℕ 0 ℕ) :=
  [.start 0 (.generation .describe), .step 0 .done, .step 0 .done, .step 0 .done, .step 0 .done]

def setMeanwhile : List (Event ℕ 0 ℕ) :=
  [.start 1 (.set "Minutes"), .step 1 .done, .step 1 (.flag true), .step 1 (.time 5),
    .step 1 .done, .step 1 .done, .step 1 .done, .step 1 .done, .step 1 .done, .step 1 .done]

def clearMeanwhile : List (Event ℕ 0 ℕ) :=
  [.start 2 .clear, .step 2 .done, .step 2 .done, .step 2 .done, .step 2 .done, .step 2 .done,
    .step 2 .done]

def toTheGuard : List (Event ℕ 0 ℕ) :=
  [.step 0 (.generated (.generated "Notes")), .step 0 .done, .step 0 (.flag true),
    .step 0 (.time 7), .step 0 .done]

theorem overtaken_isDiscarded_afterSet :
    ∃ s s' t : State ℕ 0 ℕ,
      run (Descriptions.step "small") (.init (some (.bare "small")))
        (runBegins ++ setMeanwhile ++ toTheGuard) = some s ∧
      Descriptions.step "small" s (.step 0 .done) = some s' ∧
      run (Descriptions.step "small") s' [.step 0 .done, .step 0 .done] = some t ∧
      (∀ row, (t.2 0).asks ≠ some (.merge true row)) ∧ t.1.settled 0 = some .refusedManual ∧
      ∀ r, t.1.settled 0 = some r → r = .refusedManual ∨ r = .superseded := by
  have hnot : Along (Descriptions.step "small") (fun u e => returns u e = false)
      (State.init (some (.bare "small"))) (runBegins ++ setMeanwhile ++ toTheGuard) := by
    decide +kernel
  obtain ⟨s, hs, hgen, hover, hasks, s', hst, t, ht, hset⟩ :
      ∃ s ∈ run (Descriptions.step "small") (State.init (some (.bare "small")))
          (runBegins ++ setMeanwhile ++ toTheGuard),
        IsRun (s.1.call 0) ∧ s.1.overtaken 0 = true ∧ (s.2 0).asks = some .readMetaUnlocked ∧
          ∃ s' ∈ Descriptions.step "small" s (.step 0 .done),
            ∃ t ∈ run (Descriptions.step "small") s' [.step 0 .done, .step 0 .done],
              t.1.settled 0 = some .refusedManual := by
    decide +kernel
  have hdis :=
    (overtaken_isDiscarded "small" isPaired_bare hnot hs hgen hover).2 s' t _ hasks hst ht
  exact ⟨s, s', t, hs, hst, ht, hdis.1, hset, hdis.2⟩

/-- **A set that is cleared again is not**, and the generated text lands. -/
theorem overtaken_lands_afterClear :
    ∃ s t : State ℕ 0 ℕ,
      run (Descriptions.step "small") (.init (some (.bare "small")))
        (runBegins ++ setMeanwhile ++ clearMeanwhile ++ toTheGuard) = some s ∧
      IsRun (s.1.call 0) ∧ s.1.overtaken 0 = true ∧ (s.2 0).asks = some .readMetaUnlocked ∧
      run (Descriptions.step "small") s (.replicate 6 (.step 0 .done)) = some t ∧
      t.1.settled 0 = some .generated ∧
      (t.1.row.bind fun m => m.description) = some "Notes" := by
  obtain ⟨s, hs, hgen, hover, hasks, t, ht, hset, hrow⟩ :
      ∃ s ∈ run (Descriptions.step "small") (State.init (some (.bare "small")))
          (runBegins ++ setMeanwhile ++ clearMeanwhile ++ toTheGuard),
        IsRun (s.1.call 0) ∧ s.1.overtaken 0 = true ∧ (s.2 0).asks = some .readMetaUnlocked ∧
          ∃ t ∈ run (Descriptions.step "small") s (.replicate 6 (.step 0 .done)),
            t.1.settled 0 = some .generated ∧
              (t.1.row.bind fun m => m.description) = some "Notes" := by
    decide +kernel
  exact ⟨s, t, hs, hgen, hover, hasks, ht, hset, hrow⟩

end ArchonSearch.Descriptions
