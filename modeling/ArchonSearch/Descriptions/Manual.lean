import ArchonSearch.Descriptions.Invariant

/-!
# A manual description wins

What an operator has written by hand stays until an operator replaces it. A set that has written
its text holds the lock until it returns, and asks for nothing after the release (`keeps_stages`),
so its text is in the row when it returns. From then on nobody changes the description but a set, a
clear, an import or a deletion (`Coherent.described_of_replaces_eq_false`), since a run writes only
over a row that is not manual and everybody else carries the description along
(`manual_description_wins`).
-/

namespace ArchonSearch.Descriptions

open Lib Async Function Option

variable {ι : Type} {n : ℕ} {τ : Type}

/-! ### The stages of a set -/

inductive Stage where
  | other
  | before
  | committed
  | released

open Stage

def Stage.May : Stage → Op n τ → Prop
  | .other, _ | .before, _ => True
  | .committed, .merge _ _ | .committed, .deleteRow | .released, _ => False
  | .committed, _ => True

def Stage.learn : Stage → (op : Op n τ) → Except Raised (Ans op) → Stage
  | .other, _, _ => .other
  | .before, .merge true _, .ok _ => .committed
  | .committed, .release, _ => .released
  | stage, _, _ => stage

@[reducible] def stages (n : ℕ) (τ : Type) : Contract (ops n τ) Raised where
  Know := Stage
  May := Stage.May
  Can _ _ _ := True
  learn := Stage.learn

def Stage.start : Call n τ → Stage
  | .set _ => .before
  | _ => .other

theorem keeps_other {α : Type} (p : Program n τ α) : Keeps (stages n τ) p .other := by
  induction p with
  | ret a => trivial
  | raise e => trivial
  | await op f ih => exact ⟨trivial, fun r _ => ih r⟩

section Sets

variable {α : Type} {stage : Stage} {E : Raised → Stage → Prop}

/-- Before the write, every other operation leaves a set where it is. -/
theorem before_bind {op : Op n τ} {f : Ans op → Program n τ α}
    (hlearn : ∀ r, Stage.learn .before op r = .before)
    {Q : α → Stage → Prop}
    (hf : ∀ a, wp (stages n τ) Q E (f a) before) (hE : ∀ e, E e before) :
    wp (stages n τ) Q E (ask op >>= f) before := by
  refine wp_bind.mpr (wp_perform trivial (fun a _ => ?_) fun e _ => ?_)
  · change wp (stages n τ) Q E (f a) (Stage.learn .before op (.ok a))
    rw [hlearn]
    exact hf a
  · change E e (Stage.learn .before op (.error e))
    rw [hlearn]
    exact hE e

def Stage.IsHeld (stage : Stage) : Prop := stage = .before ∨ stage = .committed

theorem Stage.IsHeld.release {Q : Stage → Prop} (h : stage.IsHeld)
    (hQ : ∀ stage, Q stage) (hE : ∀ e stage, E e stage) :
    wp (stages n τ) (fun _ stage => Q stage) E (ask .release) stage := by
  refine wp_perform ?_ (fun _ _ => hQ _) fun e _ => hE e _
  rcases h with rfl | rfl <;> trivial

theorem wp_writeMetaUnlocked_before (row : CollectionMeta n τ) :
    wp (stages n τ) (fun _ stage => stage.IsHeld) (fun _ stage => stage.IsHeld)
      (writeMetaUnlocked true row) .before := by
  refine wp_bind.mpr (wp_perform trivial (fun _ _ => ?_) fun e _ => Or.inl rfl)
  -- the text is written
  refine wp_bind.mpr (wp_perform trivial (fun _ _ => ?_) fun _ _ => Or.inr rfl)
  exact wp_perform trivial (fun _ _ => Or.inr rfl) fun _ _ => Or.inr rfl

theorem keeps_writeDescription [DecidableEq τ] (fields : DescriptionFields τ)
    (guard : Option (ExpectedState τ)) :
    Keeps (stages n τ) (writeDescription fields guard) .before := by
  refine before_bind (fun r => by cases r <;> rfl) ?_ fun _ => trivial
  rintro (_ | _)
  · trivial
  refine wp_andFinally.mpr (wp_mono (Q := fun _ (stage : Stage) => stage.IsHeld)
    (E := fun _ (stage : Stage) => stage.IsHeld) ?_ ?_ ?_)
  · refine before_bind (fun r => by cases r <;> rfl) (fun row => ?_) fun _ => Or.inl rfl
    cases row with
    | none => exact Or.inl rfl
    | some row =>
      simp only
      split
      · exact Or.inl rfl
      · exact wp_bind.mpr (wp_mono (wp_writeMetaUnlocked_before _) (fun _ _ h => h)
          fun _ _ h => h)
  · exact fun _ _ h => h.release (fun _ => trivial) fun _ _ => trivial
  · exact fun _ _ h => h.release (fun _ => trivial) fun _ _ => trivial

/-- **A set that has written its text holds the lock until it returns.** -/
theorem keeps_stages [DecidableEq τ] (defaultModel : String) (call : Call n τ) :
    Keeps (stages n τ) (call.program defaultModel) (start call) := by
  cases call with
  | set text =>
    refine wp_bind.mpr ?_
    simp only [apply, applyText]
    split_ifs with hchk
    swap
    · trivial
    refine before_bind (fun r => by cases r <;> rfl) (fun row => ?_) fun _ => trivial
    cases row with
    | none => trivial
    | some row =>
      refine wp_bind.mpr
        (wp_mono (Q := fun _ (stage : Stage) => stage = .before) (E := fun _ _ => True)
        ?_ ?_ fun _ _ _ => trivial)
      · -- the embedding
        refine wp_bind.mpr (wp_attempt.mpr ?_)
        refine wp_perform trivial (fun storable _ => ?_) fun e _ => ?_
        · cases storable <;> rfl
        · cases e <;> first | rfl | trivial
      · rintro vector _ rfl
        refine before_bind (fun r => by cases r <;> rfl) (fun now => ?_) fun _ => trivial
        exact wp_bind.mpr (wp_mono (keeps_writeDescription _ _) (fun _ _ _ => trivial)
          fun _ _ _ => trivial)
  | _ => exact keeps_other _

end Sets

/-! ### What a set leaves behind -/

structure Shows (text : String) (row : Option (CollectionMeta n τ)) : Prop where
  description : (described row).description = some text
  source : (described row).source = some .manual
  status : (described row).status = some .ok

variable {text : String}

theorem Shows.congr {row row' : Option (CollectionMeta n τ)} (h : Shows text row)
    (heq : described row' = described row) : Shows text row' := by
  constructor <;> rw [heq]
  · exact h.description
  · exact h.source
  · exact h.status

theorem Shows.exists_eq {row : Option (CollectionMeta n τ)} (h : Shows text row) :
    ∃ m, row = some m ∧ m.description = some text ∧ m.descriptionSource = some .manual ∧
      m.descriptionStatus = some .ok := by
  cases row with
  | none => cases h.source
  | some m => exact ⟨m, rfl, (filter_eq_some_iff.mp h.description).1, h.source, h.status⟩

structure Staged (w : World ι n τ) (i : ι) (text : String) (stage : Stage) : Prop where
  isSet : stage ≠ .other
  before : stage = .before → w.wrote i = false
  committed : stage = .committed → w.holder = some i ∧ Shows text w.row

def AllStaged (w : World ι n τ) (stage : ι → Stage) : Prop :=
  ∀ i text, w.call i = some (.set text) → Staged w i text (stage i)

variable [DecidableEq ι] [DecidableEq τ] {w w' : World ι n τ} {i j : ι} {op : Op n τ}
  {r : Except Raised (Ans op)}

theorem Did.wrote_of_ne (h : Did i w op r w') (hj : j ≠ i) : w'.wrote j = w.wrote j := by
  cases h with
  | merged counted row => cases counted <;> simp [World.write, World.replaceRow, hj]
  | readRow => simp [World.reads, hj]
  | readRowFailed e => simp [World.reads, hj]
  | _ => rfl

variable {k : Know n τ}

/-- The row of the holder of the lock stays as it is while others do what they do. -/
theorem Did.frame (h : Did i w op r w') (hi : Tied w i k) (hm : May k op)
    (hho : w.holder = some j) (hj : j ≠ i) : w'.holder = some j ∧ w'.row = w.row := by
  have hfr : k.hold = .free := by
    by_contra hh
    exact hj (some.inj (hho.symm.trans (hi.holder.mp hh)))
  cases h with
  | acquired hn =>
    rw [hn] at hho
    cases hho
  | released => exact absurd hfr hm.1
  | merged counted row =>
    cases counted with
    | false =>
      obtain ⟨read, hhold, -⟩ := hm
      simp [hfr] at hhold
    | true =>
      obtain ⟨m, hhold, -⟩ := hm
      simp [hfr] at hhold
  | deleted => exact absurd hfr hm.1
  | _ => exact ⟨hho, rfl⟩

omit [DecidableEq ι] [DecidableEq τ] in
theorem Stage.learn_before (op : Op n τ) (r : Except Raised (Ans op)) :
    learn .before op r = .before ∨
      learn .before op r = .committed ∧ ∃ row, op = .merge true row ∧ r.isOk := by
  cases op with
  | merge counted row =>
    cases counted with
    | false => exact Or.inl (by cases r <;> rfl)
    | true =>
      cases r with
      | ok a => exact Or.inr ⟨rfl, row, rfl, rfl⟩
      | error e => exact Or.inl rfl
  | _ => exact Or.inl (by cases r <;> rfl)

omit [DecidableEq ι] [DecidableEq τ] in
/-- A set after its write stays there, or releases the lock. -/
theorem Stage.learn_committed (op : Op n τ) (r : Except Raised (Ans op)) :
    learn .committed op r = .committed ∧ op ≠ .release ∨
      learn .committed op r = .released ∧ op = .release := by
  cases op with
  | release => exact Or.inr ⟨by cases r <;> rfl, rfl⟩
  | _ => exact Or.inl ⟨by cases r <;> rfl, by simp⟩

/-- **The stage of a set goes on with it.** -/
theorem Staged.step {stage : Stage} (h : Staged w i text stage)
    (hdid : Did i w op r w') (hsg : stage.May op) (hi : Tied w i k)
    (hm : May k op) (hc : w.call i = some (.set text)) :
    Staged w' i text (stage.learn op r) := by
  have hst := h.isSet
  cases stage with
  | other => exact absurd rfl hst
  | released => exact hsg.elim
  | before =>
    have hwrote := h.before rfl
    rcases learn_before op r with heq | ⟨-, row, rfl, hok⟩
    · rw [heq]
      refine ⟨by simp, fun _ => ?_, by simp⟩
      cases hdid with
      | merged counted row =>
        cases counted with
        | false => exact hwrote
        | true => cases heq
      | readRow => simp [World.reads]
      | readRowFailed e => simp [World.reads]
      | _ => exact hwrote
    · obtain ⟨m, hhold, -, hchg⟩ := hm
      cases hdid with
      | nothing hlearn =>
        cases r with
        | ok a => cases congrArg Know.owes (hlearn { call := none })
        | error e => cases hok
      | merged counted row =>
        refine ⟨by simp [Stage.learn], by simp [Stage.learn], fun _ => ?_⟩
        have hper := hchg.permits
        rw [hi.call, hc] at hper
        obtain ⟨htx, hsrc, hstat⟩ := hper
        have hshw : Shows text (some row) := ⟨htx, hsrc, hstat⟩
        exact ⟨hi.holder.mp (by simp [hhold]), hshw.congr row.described_stored⟩
  | committed =>
    obtain ⟨hho, hshw⟩ := h.committed rfl
    rcases learn_committed op r with ⟨heq, hne⟩ | ⟨heq, -⟩
    · rw [heq]
      refine ⟨by simp, by simp, fun _ => ?_⟩
      cases hdid with
      | acquired hn =>
        rw [hn] at hho
        cases hho
      | released => exact absurd rfl hne
      | merged counted row => exact hsg.elim
      | deleted => exact hsg.elim
      | _ => exact ⟨hho, hshw⟩
    · rw [heq]
      exact ⟨by simp, by simp, by simp⟩

variable {defaultModel : String} {s s' : State ι n τ}

omit [DecidableEq ι] [DecidableEq τ] in
theorem AllStaged.of_call {stage stage' : ι → Stage} (h : AllStaged w stage)
    (hc : w'.call = w.call)
    (hstag : ∀ i text, w.call i = some (.set text) → Staged w i text (stage i) →
      Staged w' i text (stage' i)) : AllStaged w' stage' := by
  intro i text hst
  rw [hc] at hst
  exact hstag i text hst (h i text hst)

variable {e : Event ι n τ}

/-- **Every event leaves every set at its stage.** -/
theorem Coherent.staged (h : Coherent s)
    (hstep : Descriptions.step defaultModel s e = some s')
    (hs : Kept (stages n τ) AllStaged s) :
    Kept (stages n τ) AllStaged s' := by
  obtain ⟨know, hinv, hkp⟩ := h.kept
  rcases step_cases hstep with ⟨i, call, rfl, hunc, -, rfl⟩ | ⟨i, reply, rfl, hadv⟩ | ⟨rfl, rfl⟩
  · obtain ⟨stage, hsg, hstag⟩ := hs
    refine ⟨update stage i (start call), fun j text hst => ?_, fun j => ?_⟩
    · by_cases hj : j = i
      · subst hj
        rw [World.accept_call_self] at hst
        cases hst
        have hwrote : s.1.wrote j = false := by
          rw [(hinv.tied j).wrote, ((hinv.tied j).unstarted hunc).1]
        exact ⟨by simp [start], fun _ => hwrote, by simp [start]⟩
      · rw [World.accept_call_of_ne _ hj] at hst
        rw [update_of_ne hj]
        exact { hsg j text hst with }
    · by_cases hj : j = i
      · subst hj
        simpa using keeps_stages defaultModel call
      · simpa [update_of_ne hj] using hstag j
  · refine hs.advance hadv fun stage op r t hsg hasks hmayStage hexec => ⟨trivial, ?_⟩
    have hdid := (did_of_exec hexec).2
    have hm : May (know i) op := ((hkp i).may hasks).2
    refine hsg.of_call hdid.call fun j text hst hj => ?_
    by_cases hne : j = i
    · subst hne
      rw [update_self]
      exact hj.step hdid hmayStage (hinv.tied j) hm hst
    · rw [update_of_ne hne]
      refine ⟨hj.isSet, fun hbef => ?_, fun hcom => ?_⟩
      · rw [hdid.wrote_of_ne hne]
        exact hj.before hbef
      · obtain ⟨hho, hshw⟩ := hj.committed hcom
        obtain ⟨hho', hr⟩ := hdid.frame (hinv.tied i) hm hho hne
        exact ⟨hho', hr ▸ hshw⟩
  · obtain ⟨stage, hsg, hstag⟩ := hs
    exact ⟨stage, fun i text hst => { hsg i text hst with }, hstag⟩

theorem Reachable.staged (h : Reachable defaultModel s) : Kept (stages n τ) AllStaged s := by
  obtain ⟨row, es, hpr, hr⟩ := h
  refine (run_invariant (I := fun s => Coherent s ∧ Kept (stages n τ) AllStaged s)
    (fun _ _ _ hs hst => ⟨hs.1.step hst, hs.1.staged hst hs.2⟩) ?_ hr).2
  exact ⟨coherent_init hpr, fun _ => .other, fun i text hset => (by cases hset), fun _ => trivial⟩

/-! ### From then on -/

def replaces (s : State ι n τ) : Event ι n τ → Bool
  | .step i .done =>
    match (s.2 i).asks with
    | some (.merge true _) => (s.1.call i).any fun call => call.IsAuthority
    | some .deleteRow => true
    | _ => false
  | _ => false

/-- **Nobody else changes a manual description.** -/
theorem Coherent.described_of_replaces_eq_false (h : Coherent s)
    (hs : Descriptions.step defaultModel s e = some s') (hnot : replaces s e = false)
    (hman : (described s.1.row).source = some .manual) :
    described s'.1.row = described s.1.row := by
  rcases h.row_cases hs with heq | ⟨i, m, row, k, rfl, hasks, hr, -, -, hc, hchg⟩ |
    ⟨i, rfl, hasks, -, -⟩
  · exact heq
  · simp only [replaces, hasks] at hnot
    have hper := hchg.permits
    rw [hc] at hper
    rw [hr] at hman
    cases hcld : s.1.call i with
    | none =>
      rw [hcld] at hper
      exact hper.elim
    | some call =>
      rw [hcld] at hper hnot
      have hoth : ¬call.IsAuthority := by simpa using hnot
      cases call with
      | set text => exact absurd trivial hoth
      | _ => exact absurd hman (hper.resolve_left hoth)
  · simp [replaces, hasks] at hnot

/-- A set that has returned with its text written has left it in the row. -/
theorem Reachable.shows {reply : Reply n τ} (h : Reachable defaultModel s)
    (hc : s.1.call i = some (.set text))
    (hs : Descriptions.step defaultModel s (.step i reply) = some s')
    (hwrote : s'.1.wrote i = true) : Shows text s'.1.row := by
  obtain ⟨stage, hsg, hstag⟩ := h.staged
  obtain ⟨know, op, f, r, hinv, -, htask, ⟨-, hm⟩, -, hdid⟩ := h.coherent.advance hs
  have hi := hsg i text hc
  have hmayStage : (stage i).May op := (hstag i).may (by rw [htask]; rfl)
  have hi' := hi.step hdid hmayStage (hinv.tied i) hm hc
  have hst := hi.isSet
  cases hnow : stage i with
  | other => exact absurd hnow hst
  | released =>
    rw [hnow] at hmayStage
    exact hmayStage.elim
  | before =>
    rw [hnow] at hi'
    rcases learn_before op r with heq | ⟨heq, -⟩
    · rw [hi'.before heq] at hwrote
      cases hwrote
    · exact (hi'.committed heq).2
  | committed =>
    rw [hnow] at hi'
    rcases learn_committed op r with ⟨heq, -⟩ | ⟨-, rfl⟩
    · exact (hi'.committed heq).2
    · have hr : s'.1.row = s.1.row := by
        generalize s'.1 = w' at hdid
        cases hdid <;> rfl
      rw [hr]
      exact (hi.committed hnow).2

/-- A text that is shown stays, as long as nothing replaces it. -/
theorem Coherent.shows_of_run {es : List (Event ι n τ)} (h : Coherent s)
    (hshw : Shows text s.1.row)
    (hn : Along (Descriptions.step defaultModel) (fun u e => replaces u e = false) s es)
    (hr : run (Descriptions.step defaultModel) s es = some s') : Shows text s'.1.row := by
  refine (run_invariant_along (I := fun u => Coherent u ∧ Shows text u.1.row) ?_ hn ⟨h, hshw⟩ hr).2
  rintro u e u' hnot ⟨hu, hshw⟩ hs
  exact ⟨hu.step hs, hshw.congr (hu.described_of_replaces_eq_false hs hnot hshw.source)⟩

/-- **A manual description wins.** After a step of a set that has written its text, be it the one
in which the set returns, the row shows that text, as manual and in order, and so it does after
every run of events none of which commits a set, a clear or an import, or deletes the row. And
whatever can be reached, a stored vector is one of the stored text. -/
theorem manual_description_wins (defaultModel : String) :
    (∀ (s s' t : State ι n τ) (i : ι) (text : String) (reply : Reply n τ)
        (es : List (Event ι n τ)),
      Reachable defaultModel s → s.1.call i = some (.set text) →
      Descriptions.step defaultModel s (.step i reply) = some s' → s'.1.wrote i = true →
      Along (Descriptions.step defaultModel) (fun u e => replaces u e = false) s' es →
      run (Descriptions.step defaultModel) s' es = some t →
      ∃ m, t.1.row = some m ∧ m.description = some text ∧ m.descriptionSource = some .manual ∧
        m.descriptionStatus = some .ok) ∧
    ∀ s : State ι n τ, Reachable defaultModel s → ∀ m ∈ s.1.row, IsPaired m := by
  refine ⟨?_, fun s hs m hm => ?_⟩
  · intro s s' t i text reply es hs hc hst hwrote hn hr
    have hshw := hs.shows hc hst hwrote
    exact ((hs.step hst).coherent.shows_of_run hshw hn hr).exists_eq
  · obtain ⟨know, hinv, -⟩ := hs.coherent.kept
    exact hinv.sound.paired m hm

/-- The beginning of a set over a row without a description, up to the release of the lock. -/
def setBegins : List (Event ℕ 0 ℕ) :=
  [.start 0 (.set "Minutes"), .step 0 .done, .step 0 (.flag true), .step 0 (.time 5),
    .step 0 .done, .step 0 .done, .step 0 .done, .step 0 .done, .step 0 .done]

def othersRun : List (Event ℕ 0 ℕ) :=
  [.start 1 (.generation .describe), .start 2 (.touch 9), .step 1 .done, .step 2 .done,
    .step 1 .done, .step 2 .done, .step 1 .done, .step 2 .done, .step 2 .done, .step 1 .done,
    .step 2 .done, .step 1 .done]

theorem manual_description_wins_minutes :
    ∃ s t : State ℕ 0 ℕ,
      run (Descriptions.step "small") (.init (some (.bare "small"))) setBegins = some s ∧
      run (Descriptions.step "small") s (.step 0 .done :: othersRun) = some t ∧
      (∃ m, t.1.row = some m ∧ m.description = some "Minutes" ∧
        m.descriptionSource = some .manual ∧ m.descriptionStatus = some .ok) ∧
      ∀ m ∈ t.1.row, IsPaired m := by
  obtain ⟨s, hs, hc, s', hst, hwrote, hn, hsm⟩ :
      ∃ s ∈ run (Descriptions.step "small") (.init (some (.bare "small"))) setBegins,
        s.1.call 0 = some (.set "Minutes") ∧
          ∃ s' ∈ Descriptions.step "small" s (.step 0 .done), s'.1.wrote 0 = true ∧
            Along (Descriptions.step "small") (fun u e => replaces u e = false) s' othersRun ∧
              (run (Descriptions.step "small") s' othersRun).isSome = true := by
    decide +kernel
  obtain ⟨t, ht⟩ := isSome_iff_exists.mp hsm
  have hs' : Reachable "small" s := ⟨_, _, isPaired_bare, hs⟩
  have hr : run (Descriptions.step "small") s (.step 0 .done :: othersRun) = some t :=
    (run_cons_eq_some _).mpr ⟨s', hst, ht⟩
  have hrch : Reachable "small" t := by
    refine ⟨some (.bare "small"), setBegins ++ .step 0 .done :: othersRun, isPaired_bare, ?_⟩
    rw [run_append, hs]
    exact hr
  have hwins := manual_description_wins (ι := ℕ) (n := 0) (τ := ℕ) "small"
  exact ⟨s, t, hs, hr, hwins.1 s s' t 0 _ _ _ hs' hc hst hwrote hn ht, hwins.2 t hrch⟩

end ArchonSearch.Descriptions
