import ArchonSearch.Sync.Turn

/-!
# Convergence of the sync

In a sync every desired collection waits for its turn, has it, and is left alone by the turns of
the others. We follow one of them: while it waits nothing but a `DELETE` touches its table
(`Waiting`, preserved by the work elsewhere), and once it has had its turn it is in line with its
files, was skipped, or is reported (`Served`). For a sync as a whole this is `spec_sync`.

The check of a collection that is `DONE` relies on the modification times that were recorded for
it: what is recorded and unchanged must have been stored. This is the invariant of the runs
(`recorded_step`), and with it `converged_of_good`: a sync without errors brings the collections in
line, in every run whose steps are good ones.

Without the condition a collection that is deleted and configured again stays without a table
(`not_converged_after_delete`): the indexing state outlives a `DELETE`, and what it says was
processed is not ingested again.
-/

namespace ArchonSearch.Sync

open Lib Prog List Option Elsewhere

variable {γ τ χ : Type} {setup : Setup γ χ}

/-! ### A collection before its turn and after it -/

/-- The collection `n`, of the path `root`, waits for its turn in a sync with these calls. Its
table is the one it had when the sync started, unless it was deleted since. -/
structure Waiting (setup : Setup γ χ) (n : Name) (root : Path) (files : Dict Path (File γ τ))
    (directories : List Path) (replies : List Reply) (table : Option (Rows χ))
    (progress : Option (CollectionProgress τ)) (s : Session γ τ χ) : Prop where
  files : s.world.files = files
  directories : s.world.directories = directories
  remaining : ∀ reply ∈ s.replies, reply ∈ replies
  progress : Dict.get s.world.collections n = progress
  recorded : Recorded setup n s.world
  kept : NeverDeleted n (replies.flatMap Reply.edits) → Dict.get s.world.tables n = table
  undisturbed : NoneDeleted s.edits ∧ root ∈ s.world.config ∧ Dict.get s.world.tables n = table ∨
    NoneAdded s.edits ∧ DistinctNames setup s.world.config ∧ pathToCollectionName setup root = n ∧
      (root ∈ s.world.config → Dict.get s.world.tables n = table)

structure Served (setup : Setup γ χ) (n : Name) (root : Path) (replies : List Reply) (turn : Turn)
    (s : Session γ τ χ) : Prop where
  remaining : ∀ reply ∈ s.replies, reply ∈ replies
  recorded : Recorded setup n s.world
  skipped : turn = .skipped → root ∉ s.world.config ∧ NoneAdded s.edits
  converged : turn = .written ∨ turn = .unchanged →
    NeverDeleted n (replies.flatMap Reply.edits) → s.failed = true ∨ Converged setup s.world n root

variable {n : Name} {root : Path} {files : Dict Path (File γ τ)} {directories : List Path}
  {replies : List Reply} {table : Option (Rows χ)} {progress : Option (CollectionProgress τ)}
  {turn : Turn} {s s' : Session γ τ χ} {edits : List Edit}

theorem NoneDeleted.neverDeleted (h : NoneDeleted edits) :
    NeverDeleted n edits := fun e he hdel => by
  rw [h e he] at hdel
  cases hdel

/-- The edits to come are some of those of the sync. -/
theorem NeverDeleted.of_replies (h : NeverDeleted n (replies.flatMap Reply.edits))
    (hreps : ∀ reply ∈ s.replies, reply ∈ replies) : NeverDeleted n s.edits := by
  intro e he
  obtain ⟨reply, hrep, hm⟩ := mem_flatMap.mp he
  exact h e (mem_flatMap.mpr ⟨reply, hreps reply hrep, hm⟩)

/-- A collection that is not deleted keeps its table. -/
theorem Keeps.get_tables {w w' : World γ τ χ} (h : Keeps setup n edits w w')
    (hnev : NeverDeleted n edits) : Dict.get w'.tables n = Dict.get w.tables n :=
  h.table.resolve_right fun hn => hn.2 hnev

theorem Elsewhere.recorded (h : Elsewhere setup n s s') (hs : Recorded setup n s.world) :
    Recorded setup n s'.world := by
  rcases h.world.table with htab | ⟨hn, -⟩
  · exact hs.congr h.world.files h.world.progress htab
  · intro progress hsm
    rw [hn] at hsm
    cases hsm

theorem Elsewhere.waiting (h : Elsewhere setup n s s')
    (hs : Waiting setup n root files directories replies table progress s) :
    Waiting setup n root files directories replies table progress s' where
  files := h.world.files.trans hs.files
  directories := h.world.directories.trans hs.directories
  remaining reply hm := hs.remaining reply (h.replies reply hm)
  progress := h.world.progress.trans hs.progress
  recorded := h.recorded hs.recorded
  kept hnev := (h.world.get_tables (hnev.of_replies hs.remaining)).trans (hs.kept hnev)
  undisturbed := by
    rcases hs.undisturbed with ⟨hdel, hm, htab⟩ | ⟨hadd, hdis, hnm, htab⟩
    · refine Or.inl ⟨fun e he => hdel e (h.edits e he), h.world.grows hdel root hm, ?_⟩
      exact (h.world.get_tables hdel.neverDeleted).trans htab
    · refine Or.inr ⟨fun e he => hadd e (h.edits e he), fun p hp q hq => ?_, hnm, fun hm => ?_⟩
      · exact hdis p (h.world.shrinks hadd p hp) q (h.world.shrinks hadd q hq)
      · rw [h.world.intact hadd hdis root hm hnm]
        exact htab (h.world.shrinks hadd root hm)

/-- Work elsewhere leaves a collection that has had its turn. -/
theorem Elsewhere.served (h : Elsewhere setup n s s')
    (hs : Served setup n root replies turn s) : Served setup n root replies turn s' where
  remaining reply hm := hs.remaining reply (h.replies reply hm)
  recorded := h.recorded hs.recorded
  skipped ht := by
    obtain ⟨hnot, hadd⟩ := hs.skipped ht
    exact ⟨fun hm => hnot (h.world.shrinks hadd root hm), fun e he => hadd e (h.edits e he)⟩
  converged ht hnev := by
    refine (hs.converged ht hnev).imp h.failed fun hcon path => ?_
    have htab := h.world.get_tables (hnev.of_replies hs.remaining)
    rw [contents_congr htab, h.world.files]
    exact hcon path

theorem Waiting.served (h : Waiting setup n root files directories replies table progress s)
    (hskip : turn = .skipped → root ∉ s.world.config ∧ NoneAdded s.edits)
    (hcon : turn = .written ∨ turn = .unchanged → Dict.get s.world.tables n = table →
      Converged setup s.world n root) : Served setup n root replies turn s where
  remaining := h.remaining
  recorded := h.recorded
  skipped := hskip
  converged ht hnev := Or.inr (hcon ht (h.kept hnev))

/-! ### The turn -/

/-- **The write of a collection**, which starts with the table it had. -/
theorem spec_writeCollection {update : Prog (Session γ τ χ) (Option String)}
    (hupd : Part setup n
      (fun s => (Written setup n files replies (chunksIn (table.getD [])) True s ∧
        s.writer = some n) ∧ Dict.get s.world.collections n = progress)
      update
      (fun error s => Written setup n files replies (s.world.contents n)
        (error = none → Converged setup s.world n root) s)) :
    Part setup n (Waiting setup n root files directories replies table progress)
      (writeCollection setup n root update) (Served setup n root replies) := by
  refine (part_of_moves elsewhere_attempt (fun _ _ => waiting) fun _ h => h.recorded).bind
    fun registered => spec_ite (fun _ => ?_) fun _ => ?_
  · refine Spec.bind (Q := fun _ s => s.writer = some n ∧
      Waiting setup n root files directories replies table progress s)
      (spec_modify fun s h => ⟨rfl, { h with }⟩) fun _ => ?_
    refine spec_get_bind fun t ht => spec_ite (fun hm => ?_) fun hnot => ?_
    · refine Spec.bind (hupd.of_pre fun s hs => ?_) ?_
      · rw [hs]
        have htab : Dict.get t.world.tables n = table :=
          ht.2.undisturbed.elim (fun h => h.2.2) fun h => h.2.2.2 hm
        refine ⟨⟨⟨ht.2.files, ht.2.remaining, ht.2.recorded, ?_, Or.inr trivial⟩, ht.1⟩,
          ht.2.progress⟩
        rw [World.contents, World.rows, htab]
      · intro error
        refine Spec.bind (Q := fun _ s => Written setup n files replies (s.world.contents n)
          (error = none → Converged setup s.world n root) s)
          (spec_modify fun s h => { h with }) fun _ => ?_
        cases error with
        | none =>
          refine spec_pure fun s h =>
            ⟨h.replies, h.recorded, (fun htn => by cases htn), ?_⟩
          exact fun _ _ => h.failed.imp_right fun hcon => hcon rfl
        | some detail =>
          refine spec_pure fun s h =>
            ⟨h.replies, h.recorded, (fun htn => by cases htn), ?_⟩
          rintro (htn | htn) <;> cases htn
    · refine Spec.bind (Q := fun _ s => Served setup n root replies .skipped s)
        (spec_modify fun s hs => ?_) fun _ => spec_pure fun _ => id
      subst hs
      refine ⟨ht.2.remaining, ht.2.recorded, fun _ => ⟨hnot, ?_⟩, ?_⟩
      · exact ht.2.undisturbed.elim (fun h => absurd h.2.1 hnot) And.left
      · rintro (htn | htn) <;> cases htn
  · refine spec_pure fun s h => h.served (fun htn => by cases htn) ?_
    rintro (htn | htn) <;> cases htn

theorem spec_ingestTurn {desired : Dict Name Path} (activeModel : Name → String)
    (hroot : Dict.get desired n = some root)
    (hrd : root ∈ directories → Resumable setup files root (table.getD [])
      ((progress.map CollectionProgress.processedPaths).getD [])) :
    Part setup n (Waiting setup n root files directories replies table progress)
      (ingestTurn setup desired activeModel n) (Served setup n root replies) := by
  have hp : (Dict.get desired n).getD [] = root := by rw [hroot]; rfl
  refine spec_read fun t ht => ?_
  rw [hp]
  refine spec_ite (fun hm => ?_) fun _ => ?_
  · rw [ht.directories] at hm
    refine spec_writeCollection ((spec_ingestCollection _ (hrd hm)).of_pre fun s hs => ?_)
    refine ⟨hs.1, ?_⟩
    rw [loadProcessedPaths, hs.2]
    cases progress with
    | none => rfl
    | some progress => rfl
  · refine spec_pure fun s h => h.served (fun htn => by cases htn) ?_
    rintro (htn | htn) <;> cases htn

section

variable [DecidableEq τ]

/-- The turn of a collection that is `DONE`. -/
theorem spec_checkTurn {desired : Dict Name Path} {activeModel : Name → String}
    {state : Dict Name (CollectionProgress τ)} (hroot : Dict.get desired n = some root)
    (hstate : Dict.get state n = progress)
    (hacc : Accurate setup files (loadFileMtimes progress) (chunksIn (table.getD [])))
    (hrd : root ∈ directories →
      Checkable setup files root (table.getD []) progress (activeModel n) replies) :
    Part setup n (Waiting setup n root files directories replies table progress)
      (checkTurn setup desired activeModel state n) (Served setup n root replies) := by
  have hp : (Dict.get desired n).getD [] = root := by rw [hroot]; rfl
  refine spec_read fun t ht => ?_
  rw [hp, hstate, ht.files]
  refine spec_ite (fun hm => spec_ite (fun hn => ?_) fun _ => ?_) fun _ => ?_
  · -- nothing has changed, so what is stored is in line
    rw [ht.directories] at hm
    refine spec_pure fun s h => h.served (fun htn => by cases htn) fun _ htab path => ?_
    rw [h.files, World.contents, World.rows, htab]
    exact converged_of_check hn (hrd hm) hacc
      (fun _ hm => absurd hm not_mem_nil) (fun _ hm => absurd hm not_mem_nil)
      (fun _ _ _ _ => rfl) path
  · rw [ht.directories] at hm
    exact spec_writeCollection ((spec_applyCollectionChanges (hrd hm) hacc).of_pre fun s hs => hs.1)
  · refine spec_pure fun s h => h.served (fun htn => by cases htn) ?_
    rintro (htn | htn) <;> cases htn

end

/-! ### A collection that is gone -/

structure Gone (setup : Setup γ χ) (n : Name) (root : Path)
    (progress : Option (CollectionProgress τ)) (s : Session γ τ χ) : Prop where
  progress : Dict.get s.world.collections n = progress
  recorded : Recorded setup n s.world
  unconfigured : root ∉ s.world.config
  noneAdded : NoneAdded s.edits

theorem Elsewhere.gone (h : Elsewhere setup n s s') (hs : Gone setup n root progress s) :
    Gone setup n root progress s' where
  progress := h.world.progress.trans hs.progress
  recorded := h.recorded hs.recorded
  unconfigured hm := hs.unconfigured (h.world.shrinks hs.noneAdded root hm)
  noneAdded e he := hs.noneAdded e (h.edits e he)

theorem spec_writeCollection_gone (update : Prog (Session γ τ χ) (Option String)) :
    Part setup n (Gone setup n root progress) (writeCollection setup n root update)
      (fun _ => Gone setup n root progress) := by
  refine (part_of_moves elsewhere_attempt (fun _ _ => gone) fun _ h => h.recorded).bind
    fun registered => spec_ite (fun _ => ?_) fun _ => ?_
  · refine Spec.bind (Q := fun _ => Gone setup n root progress)
      (spec_modify fun s h => { h with }) fun _ => ?_
    refine spec_read fun t ht => spec_ite (fun hm => ?_) fun _ => ?_
    · exact absurd hm ht.unconfigured
    · exact spec_modify_pure fun s hs => { hs with }
  · exact spec_pure fun _ => id

/-! ### The turns of all collections -/

variable {names : List Name}

theorem mem_sortIngestionOrder {desired : Dict Name Path} {m : Name} :
    m ∈ sortIngestionOrder setup names desired ↔ m ∈ names := by
  simp only [sortIngestionOrder, mem_append, mem_insertionSort, mem_filter]
  constructor
  · rintro (h | h)
    · simpa using (mem_filter.mp (mem_eraseDups.mp h)).2
    · exact h.1
  · exact fun h => or_iff_not_imp_left.mpr fun hnot => ⟨h, by simpa using hnot⟩

theorem nodup_sortIngestionOrder (desired : Dict Name Path)
    (h : names.Nodup) : (sortIngestionOrder setup names desired).Nodup := by
  refine List.Nodup.append (nodup_eraseDups rfl)
    ((perm_insertionSort _ _).nodup_iff.mpr (h.filter _)) fun m hm hm' => ?_
  have hnot := (mem_filter.mp ((mem_insertionSort _).mp hm')).2
  exact absurd hm (by simpa using hnot)

variable {K : Session γ τ χ → Prop} {β : Type} {f : Name → Prog (Session γ τ χ) β} {l : List Name}

theorem spec_others (hK : ∀ s s', Elsewhere setup n s s' → K s → K s')
    (hrecd : ∀ s, K s → Recorded setup n s.world)
    (hmvs : ∀ m, n ≠ m → Moves (Elsewhere setup n) (f m)) (hl : n ∉ l) :
    Part setup n K (mapEach f l) (fun _ => K) := by
  refine spec_mapEach fun m hm => ?_
  have hne : n ≠ m := fun h => hl (h ▸ hm)
  exact part_of_moves (hmvs m hne) hK hrecd

theorem spec_focus {J : β → Session γ τ χ → Prop}
    (hK : ∀ s s', Elsewhere setup n s s' → K s → K s')
    (hJ : ∀ b s s', Elsewhere setup n s s' → J b s → J b s')
    (hKrecorded : ∀ s, K s → Recorded setup n s.world)
    (hJrecorded : ∀ b s, J b s → Recorded setup n s.world)
    (hmvs : ∀ m, n ≠ m → Moves (Elsewhere setup n) (f m))
    (ht : Part setup n K (f n) J) (hn : n ∈ l) (hl : l.Nodup) :
    Part setup n K (mapEach f l) (fun bs s => ∃ b, (n, b) ∈ bs ∧ J b s) := by
  refine Spec.mapEach_focus hn hl (fun m _ hne => ?_) ht fun m _ hne b => ?_
  · exact part_of_moves (hmvs m hne.symm) hK hKrecorded
  · exact part_of_moves (hmvs m hne.symm) (hJ b) (hJrecorded b)

variable [DecidableEq τ] {desired : Dict Name Path} {existing managed : List Name}
  {activeModel : Name → String}

/-- **The turns of a sync**, for one of the desired collections: it has its turn once, and
the others leave it alone. -/
theorem spec_takeTurns {J : Turn → Session γ τ χ → Prop} (hn : n ∈ desired.items.map Prod.fst)
    (hK : ∀ s s', Elsewhere setup n s s' → K s → K s')
    (hJ : ∀ turn s s', Elsewhere setup n s s' → J turn s → J turn s')
    (hKrecorded : ∀ s, K s → Recorded setup n s.world)
    (hJrecorded : ∀ turn s, J turn s → Recorded setup n s.world)
    (hprog : ∀ s, K s → Dict.get s.world.collections n = progress)
    (hadd : n ∉ existing → Part setup n K (ingestTurn setup desired (fun _ => "") n) J)
    (hres : n ∈ existing → progress.any (fun p => p.status ≠ .done) = true →
      Part setup n K (ingestTurn setup desired activeModel n) J)
    (hcheck : n ∈ existing → progress.any (fun p => p.status ≠ .done) = false →
      ∀ state, Dict.get state n = progress →
        Part setup n K (checkTurn setup desired activeModel state n) J) :
    Part setup n K (takeTurns setup desired existing managed activeModel)
      (fun turns s => ∃ turn,
        (n, turn) ∈ turns.added ++ turns.resumed ++ turns.checked ∧ J turn s) := by
  have hexis : ∀ s s', Elsewhere setup n s s' → ∀ turns : List (Name × Turn),
      (∃ turn, (n, turn) ∈ turns ∧ J turn s) → ∃ turn, (n, turn) ∈ turns ∧ J turn s' :=
    fun s s' h turns ⟨turn, hm, htn⟩ => ⟨turn, hm, hJ turn s s' h htn⟩
  have hexistsRecorded : ∀ s, ∀ turns : List (Name × Turn),
      (∃ turn, (n, turn) ∈ turns ∧ J turn s) → Recorded setup n s.world :=
    fun s turns ⟨turn, _, htn⟩ => hJrecorded turn s htn
  have hnd : (desired.items.map Prod.fst).Nodup := desired.nodup
  refine Spec.bind (spec_others hK hKrecorded (fun m h => elsewhere_dropIfIdle h) ?_)
    fun drops => ?_
  · simp [hn]
  by_cases hexg : n ∈ existing
  · refine Spec.bind (spec_others hK hKrecorded (fun m h => elsewhere_ingestTurn h _ _) ?_)
      fun added => ?_
    · rw [mem_sortIngestionOrder]
      simp [hexg]
    refine spec_read fun t ht => ?_
    have hpres : n ∈ (desired.items.map Prod.fst).filter fun name => existing.contains name := by
      simpa [hexg] using hn
    have hinc : n ∈ toResume t.world.collections
        ((desired.items.map Prod.fst).filter fun name => existing.contains name) ↔
          progress.any (fun p => p.status ≠ .done) = true := by
      rw [toResume, mem_filter, hprog t ht]
      exact and_iff_right hpres
    cases hany : progress.any (fun p => p.status ≠ .done) with
    | true =>
      rw [hany] at hinc
      refine Spec.bind (spec_focus hK hJ hKrecorded hJrecorded
        (fun m h => elsewhere_ingestTurn h _ _) (hres hexg hany)
        ((mem_insertionSort _).mpr (hinc.mpr rfl))
        ((perm_insertionSort _ _).nodup_iff.mpr ((hnd.filter _).filter _)))
        fun resumed => spec_read fun t' _ => ?_
      refine Spec.bind (spec_others (fun s s' h => hexis s s' h resumed)
        (fun s => hexistsRecorded s resumed) (fun m h => elsewhere_checkTurn h _ _ _) ?_)
        fun checked => spec_pure ?_
      · rw [mem_sortIngestionOrder]
        exact fun h => absurd (hinc.mpr rfl) (by simpa using (mem_filter.mp h).2)
      · rintro s ⟨turn, hm, htn⟩
        exact ⟨turn, mem_append_left _ (mem_append_right _ hm), htn⟩
    | false =>
      have hnot : n ∉ toResume t.world.collections
          ((desired.items.map Prod.fst).filter fun name => existing.contains name) := fun h => by
        rw [hinc, hany] at h
        cases h
      refine Spec.bind (spec_others hK hKrecorded (fun m h => elsewhere_ingestTurn h _ _)
        fun h => hnot ((mem_insertionSort _).mp h))
        fun resumed => spec_read fun t' ht' => ?_
      refine Spec.bind (spec_focus hK hJ hKrecorded hJrecorded
        (fun m h => elsewhere_checkTurn h _ _ _)
        (hcheck hexg hany _ (hprog t' ht')) ?_ ?_) fun checked => spec_pure ?_
      · rw [mem_sortIngestionOrder, mem_filter]
        exact ⟨hpres, by simpa using hnot⟩
      · exact nodup_sortIngestionOrder desired ((hnd.filter _).filter _)
      · rintro s ⟨turn, hm, htn⟩
        exact ⟨turn, mem_append_right _ hm, htn⟩
  · refine Spec.bind (spec_focus hK hJ hKrecorded hJrecorded
      (fun m h => elsewhere_ingestTurn h _ _) (hadd hexg) ?_ ?_) fun added => ?_
    · rw [mem_sortIngestionOrder]
      simpa [hexg] using hn
    · exact nodup_sortIngestionOrder desired (hnd.filter _)
    have habs : n ∉ (desired.items.map Prod.fst).filter fun name => existing.contains name := by
      simp [hexg]
    have hAdded := fun s s' h => hexis s s' h added
    refine spec_read fun t _ => ?_
    refine Spec.bind (spec_others hAdded (fun s => hexistsRecorded s added)
      (fun m h => elsewhere_ingestTurn h _ _)
      fun h => habs (mem_of_mem_filter ((mem_insertionSort _).mp h)))
      fun resumed => spec_read fun t' _ => ?_
    refine Spec.bind (spec_others hAdded (fun s => hexistsRecorded s added)
      (fun m h => elsewhere_checkTurn h _ _ _)
      fun h => habs (mem_of_mem_filter (mem_sortIngestionOrder.mp h)))
      fun checked => spec_pure ?_
    rintro s ⟨turn, hm, htn⟩
    exact ⟨turn, mem_append_left _ (mem_append_left _ hm), htn⟩

omit [DecidableEq τ] in
theorem spec_ingestTurn_gone (hroot : Dict.get desired n = some root) :
    Part setup n (Gone setup n root progress) (ingestTurn setup desired activeModel n)
      (fun _ => Gone setup n root progress) := by
  have hp : (Dict.get desired n).getD [] = root := by rw [hroot]; rfl
  refine spec_read fun t _ => ?_
  rw [hp]
  exact spec_ite (fun _ => spec_writeCollection_gone _) fun _ => spec_pure fun _ => id

theorem spec_checkTurn_gone (hroot : Dict.get desired n = some root)
    (state : Dict Name (CollectionProgress τ)) :
    Part setup n (Gone setup n root progress) (checkTurn setup desired activeModel state n)
      (fun _ => Gone setup n root progress) := by
  have hp : (Dict.get desired n).getD [] = root := by rw [hroot]; rfl
  refine spec_read fun t _ => ?_
  rw [hp]
  refine spec_ite (fun _ => ?_) fun _ => spec_pure fun _ => id
  exact spec_ite (fun _ => spec_pure fun _ => id) fun _ => spec_writeCollection_gone _

/-! ### The start of a sync -/

omit [DecidableEq τ] in
theorem get_resetStaleInProgress (w : World γ τ χ) :
    Dict.get (resetStaleInProgress w).collections n =
      (Dict.get w.collections n).map resetInProgress := by
  rw [Dict.get, Dict.get, resetStaleInProgress, Keyed.get?_map, Option.map_map, Option.map_map]
  rfl

variable {p : CollectionProgress τ}

section
omit [DecidableEq τ]

/-- A collection is not `DONE` because it was reset. -/
theorem status_resetInProgress :
    (resetInProgress p).status = .done ↔ p.status = .done := by
  unfold resetInProgress
  split_ifs with h
  · simp [h]
  · rfl

theorem resetInProgress_eq_self (h : p.status = .done) :
    resetInProgress p = p :=
  if_neg (by rw [h]; decide)

theorem Recorded.reset {w : World γ τ χ} (h : Recorded setup n w) :
    Recorded setup n (resetStaleInProgress w) := by
  intro progress hs hg hd
  rw [get_resetStaleInProgress] at hg
  obtain ⟨p, hp, rfl⟩ := map_eq_some_iff.mp hg
  rw [resetInProgress_eq_self (status_resetInProgress.mp hd)]
  exact h p hs hp (status_resetInProgress.mp hd)

/-- A sync starts by resetting what a dead one has left. -/
theorem spec_reset :
    Part setup n (Waiting setup n root files directories replies table progress)
      (write setup resetStaleInProgress)
      (fun _ => Waiting setup n root files directories replies table
        (progress.map resetInProgress)) := by
  have hmod : Part setup n (Waiting setup n root files directories replies table progress)
      (modify fun s => { s with world := resetStaleInProgress s.world })
      (fun _ => Waiting setup n root files directories replies table
        (progress.map resetInProgress)) :=
    spec_modify fun s h =>
      { h with
        progress := by rw [get_resetStaleInProgress, h.progress]
        recorded := h.recorded.reset }
  refine (part_of_moves elsewhere_call (fun _ _ => waiting) fun _ h => h.recorded).bind
    fun outcome => ?_
  cases outcome with
  | dies => exact spec_die fun _ h => h.recorded
  | _ => exact hmod

end

/-! ### A desired collection -/

variable {w : World γ τ χ}

section
omit [DecidableEq τ]

/-- A collection with a configured path waits when a sync starts. -/
theorem waiting_start (hn : (n, root) ∈ buildDesired setup w.config)
    (hund : Undisturbed setup w.config (replies.flatMap Reply.edits))
    (hrecd : Recorded setup n w) :
    Waiting setup n root w.files w.directories replies (Dict.get w.tables n)
      (Dict.get w.collections n) (w.start replies) where
  files := rfl
  directories := rfl
  remaining _ := id
  progress := rfl
  recorded := hrecd
  kept _ := rfl
  undisturbed := by
    refine hund.imp (fun h => ⟨h, mem_of_mem_buildDesired hn, rfl⟩) fun h => ?_
    exact ⟨h.1, h.2, (name_of_mem_buildDesired hn h.2).symm, fun _ => rfl⟩

theorem mem_existing (w : World γ τ χ) :
    n ∈ w.tables.items.map Prod.fst ↔ (Dict.get w.tables n).isSome = true := by
  rw [isSome_iff_exists, List.mem_map]
  constructor
  · rintro ⟨⟨m, rows⟩, hm, rfl⟩
    exact ⟨rows, Dict.get_eq_some_iff.mpr hm⟩
  · rintro ⟨rows, hg⟩
    exact ⟨(n, rows), Dict.get_eq_some_iff.mp hg, rfl⟩

theorem processedPaths_reset (w : World γ τ χ) :
    (((Dict.get w.collections n).map resetInProgress).map
      CollectionProgress.processedPaths).getD [] = loadProcessedPaths w n := by
  rw [loadProcessedPaths]
  cases Dict.get w.collections n with
  | none => rfl
  | some p =>
    simp only [map_some, getD_some, resetInProgress]
    split_ifs
    · rfl
    · rfl

/-- A collection that was reset is complete exactly if it was. -/
theorem any_reset_eq_not_all (p : Option (CollectionProgress τ)) :
    (p.map resetInProgress).any (fun q => q.status ≠ .done) = !p.all fun q => q.status = .done := by
  cases p with
  | none => rfl
  | some p =>
    have hstat := status_resetInProgress (p := p)
    by_cases hd : p.status = .done
    · simp [hd, hstat.mpr hd]
    · simp [hd, mt hstat.mp hd]

end

/-- A collection that can take its turn, of the kind that it takes. -/
theorem Ready.resumable (h : Ready setup w activeModel replies n root)
    (hnot : ¬((Dict.get w.tables n).isSome = true ∧
      (Dict.get w.collections n).all (fun p => p.status = .done) = true)) :
    Resumable setup w.files root ((Dict.get w.tables n).getD [])
      ((((Dict.get w.collections n).map resetInProgress).map
        CollectionProgress.processedPaths).getD []) := by
  rw [Ready, if_neg hnot] at h
  rw [processedPaths_reset]
  exact h

variable {skipped : List Name} {turns : Turns}

omit [DecidableEq τ] in
theorem error_eq_none_of_errors
    (h : (turns.result skipped).errors = [])
    (hm : (n, turn) ∈ turns.added ++ turns.resumed ++ turns.checked) : turn.error = none :=
  filterMap_eq_nil_iff.mp (append_eq_nil_iff.mp h).2 (n, turn) hm

/-- A collection that has its table takes the turn that it is ready for. -/
theorem spec_takeTurns_ready (hn : (n, root) ∈ desired)
    (hrd : root ∈ w.directories → Ready setup w activeModel replies n root)
    (hrecd : Recorded setup n w)
    (hexg : n ∈ existing ↔ (Dict.get w.tables n).isSome = true) :
    Part setup n (Waiting setup n root w.files w.directories replies (Dict.get w.tables n)
        ((Dict.get w.collections n).map resetInProgress))
      (takeTurns setup desired existing managed activeModel)
      (fun turns s => ∃ turn, (n, turn) ∈ turns.added ++ turns.resumed ++ turns.checked ∧
        Served setup n root replies turn s) := by
  have hroot : Dict.get desired n = some root := Dict.get_eq_some_iff.mpr hn
  refine spec_takeTurns (J := Served setup n root replies)
    (List.mem_map_of_mem (f := Prod.fst) hn) (fun _ _ => waiting)
    (fun _ _ _ => served) (fun _ h => h.recorded) (fun _ _ h => h.recorded)
    (fun _ h => h.progress) (fun hnot => ?_) (fun hm hany => ?_) fun hm hany state hstate => ?_
  · exact spec_ingestTurn _ hroot fun hdir =>
      (hrd hdir).resumable fun h => hnot (hexg.mpr h.1)
  · refine spec_ingestTurn _ hroot fun hdir => (hrd hdir).resumable fun h => ?_
    rw [any_reset_eq_not_all, h.2] at hany
    cases hany
  · rw [any_reset_eq_not_all, Bool.not_eq_false'] at hany
    have hs := hexg.mp hm
    -- what is complete was not reset
    have heq : (Dict.get w.collections n).map resetInProgress = Dict.get w.collections n := by
      cases hprog : Dict.get w.collections n with
      | none => rfl
      | some p =>
        rw [hprog] at hany
        exact congrArg some (resetInProgress_eq_self (by simpa using hany))
    rw [heq] at hstate ⊢
    refine spec_checkTurn hroot hstate ?_ fun hdir => ?_
    · cases hprog : Dict.get w.collections n with
      | none => exact fun path file _ hmt => by cases hmt
      | some p =>
        rw [hprog] at hany
        exact hrecd p hs hprog (by simpa using hany)
    · have h := hrd hdir
      rw [Ready, if_pos ⟨hs, hany⟩] at h
      exact h

/-- A collection that was deleted before the sync looked takes none. -/
theorem spec_takeTurns_gone (hn : (n, root) ∈ desired) :
    Part setup n (Gone setup n root progress)
      (takeTurns setup desired existing managed activeModel)
      (fun _ => Gone setup n root progress) := by
  have hroot : Dict.get desired n = some root := Dict.get_eq_some_iff.mpr hn
  refine (spec_takeTurns (J := fun _ => Gone setup n root progress)
    (List.mem_map_of_mem (f := Prod.fst) hn) (fun _ _ => gone)
    (fun _ _ _ => gone) (fun _ h => h.recorded) (fun _ _ h => h.recorded)
    (fun _ h => h.progress) (fun _ => spec_ingestTurn_gone hroot)
    (fun _ _ => spec_ingestTurn_gone hroot) fun _ _ state _ =>
      spec_checkTurn_gone hroot state).mono (fun _ => id) ?_ fun _ => id
  rintro turns s ⟨turn, -, h⟩
  exact h

def Synced (setup : Setup γ χ) (n : Name) (root : Path) (replies : List Reply)
    (result : SyncResult) (s : Session γ τ χ) : Prop :=
  Recorded setup n s.world ∧
    (NeverDeleted n (replies.flatMap Reply.edits) → result.errors = [] → s.failed = false →
      root ∈ s.world.config → Converged setup s.world n root)

omit [DecidableEq τ] in
/-- A turn without an error has brought the collection in line. -/
theorem Served.synced
    (h : Served setup n root replies turn s)
    (hm : (n, turn) ∈ turns.added ++ turns.resumed ++ turns.checked) :
    Synced setup n root replies (turns.result skipped) s := by
  refine ⟨h.recorded, fun hnev herrs hfa hconf => ?_⟩
  have herr := error_eq_none_of_errors herrs hm
  have hcon (ht : turn = .written ∨ turn = .unchanged) :=
    (h.converged ht hnev).resolve_left (by rw [hfa]; decide)
  cases turn with
  | written => exact hcon (Or.inl rfl)
  | unchanged => exact hcon (Or.inr rfl)
  | skipped => exact absurd hconf (h.skipped rfl).1
  | pathMissing path => cases herr
  | failed detail => cases herr

omit [DecidableEq τ] in
theorem elsewhere_writeManifest (manifest : Dict Name Path) :
    Moves (Elsewhere (τ := τ) setup n) (write setup fun w => { w with manifest := manifest }) :=
  elsewhere_write fun _ _ => .of_eq rfl rfl rfl rfl rfl

/-- **A sync, for a desired collection.** -/
theorem spec_sync (hn : (n, root) ∈ buildDesired setup w.config)
    (hg : Good setup w (.sync activeModel replies)) (hrecd : Recorded setup n w) :
    Part setup n (fun s => s = w.start replies) (sync setup w.config activeModel)
      (Synced setup n root replies) := by
  obtain ⟨hund, hrd⟩ := hg
  refine Spec.bind (spec_reset.of_pre fun s hs => hs ▸ waiting_start hn hund hrecd) fun _ => ?_
  refine (part_of_moves elsewhere_attempt (fun _ _ => waiting) fun _ h => h.recorded).bind
    fun listed => ?_
  refine spec_ite (fun _ => ?_) fun _ => spec_die fun _ h => h.recorded
  refine spec_get_bind fun t ht => ?_
  by_cases hconf : root ∈ t.world.config
  · have hexg := mem_existing (n := n) t.world
    rw [ht.undisturbed.elim (fun h => h.2.2) fun h => h.2.2.2 hconf] at hexg
    refine Spec.bind ((spec_takeTurns_ready hn (hrd (n, root) hn) hrecd
      hexg).of_pre fun s hs => hs ▸ ht) fun turns => ?_
    refine Spec.bind (Q := fun _ s => ∃ turn,
      (n, turn) ∈ turns.added ++ turns.resumed ++ turns.checked ∧
        Served setup n root replies turn s) ?_ fun _ => spec_pure ?_
    · refine part_of_moves (elsewhere_writeManifest _) ?_ ?_
      · rintro s s' h ⟨turn, hm, htn⟩
        exact ⟨turn, hm, h.served htn⟩
      · rintro s ⟨turn, -, htn⟩
        exact htn.recorded
    · rintro s ⟨turn, hm, htn⟩
      exact htn.synced hm
  · have hgone : Gone setup n root ((Dict.get w.collections n).map resetInProgress) t :=
      ⟨ht.progress, ht.recorded, hconf, ht.undisturbed.elim (fun h => absurd h.2.1 hconf) And.left⟩
    refine Spec.bind ((spec_takeTurns_gone hn).of_pre fun s hs => hs ▸ hgone) fun turns => ?_
    refine (part_of_moves (elsewhere_writeManifest _) (fun _ _ => gone)
      fun _ h => h.recorded).bind fun _ => spec_pure fun s h => ?_
    exact ⟨h.recorded, fun _ _ _ hcon => absurd hcon h.unconfigured⟩

/-! ### The other collections -/

omit [DecidableEq τ] in
/-- A table that is dropped leaves nothing recorded. -/
theorem recorded_erase (w : World γ τ χ) (collections : Dict Name (CollectionProgress τ)) :
    Recorded setup n { w with tables := w.tables.erase n, collections := collections } := by
  intro progress hs
  rw [Dict.get_erase, if_pos rfl] at hs
  cases hs

omit [DecidableEq τ] in
/-- The drop of a collection leaves what is recorded. -/
theorem recorded_dropIfIdle (m : Name) :
    Preserves (fun s : Session γ τ χ => Recorded setup n s.world) (dropIfIdle setup m) := by
  have hc : Preserves (fun s : Session γ τ χ => Recorded setup n s.world) (call setup) :=
    elsewhere_call.preserves fun _ _ => recorded
  by_cases hm : n = m
  · subst hm
    have hd : Preserves (fun s : Session γ τ χ => Recorded setup n s.world)
        (modify fun s =>
          { s with world := { s.world with tables := s.world.tables.erase n } }) :=
      preserves_modify fun s _ => recorded_erase s.world s.world.collections
    have hfor : Preserves (fun s : Session γ τ χ => Recorded setup n s.world)
        (write setup fun w => { w with collections := w.collections.erase n }) := by
      have hmod : Preserves (fun s : Session γ τ χ => Recorded setup n s.world)
          (modify fun s =>
            { s with world := { s.world with collections := s.world.collections.erase n } }) := by
        refine preserves_modify fun s _ progress _ hg => ?_
        rw [Dict.get_erase, if_pos rfl] at hg
        cases hg
      refine hc.bind fun outcome => ?_
      cases outcome with
      | dies => exact spec_die fun _ => id
      | _ => exact hmod
    refine hc.bind fun outcome => ?_
    rcases outcome with _ | _ | (_ | _) | (_ | _)
    · refine preserves_get.bind fun s => ?_
      cases Dict.get s.world.tables n with
      | none => exact preserves_pure
      | some rows => exact hd.bind fun _ => hfor.bind fun _ => preserves_pure
    · exact preserves_pure
    · exact spec_die fun _ => id
    · exact hd.bind fun _ => spec_die fun _ => id
    · exact spec_die fun _ => id
    · exact hd.bind fun _ => spec_die fun _ => id
  · exact (elsewhere_dropIfIdle hm).preserves fun _ _ => recorded

/-- **A sync, for a collection that is not desired.** -/
theorem recorded_sync {collections : List Path} (activeModel : Name → String)
    (hn : n ∉ (buildDesired setup collections).items.map Prod.fst) :
    Preserves (fun s : Session γ τ χ => Recorded setup n s.world)
      (sync setup collections activeModel) := by
  have hmvs {α : Type} {p : Prog (Session γ τ χ) α} (h : Moves (Elsewhere setup n) p) :
      Preserves (fun s => Recorded setup n s.world) p :=
    h.preserves fun _ _ => recorded
  have htur {l : List Name} {f : Name → Prog (Session γ τ χ) Turn} (hl : n ∉ l)
      (hf : ∀ m, n ≠ m → Moves (Elsewhere setup n) (f m)) :
      Preserves (fun s => Recorded setup n s.world) (mapEach f l) :=
    hmvs (moves_mapEach fun m hm => hf m fun h => hl (h ▸ hm))
  refine Preserves.bind ?_ fun _ =>
    Preserves.bind (hmvs elsewhere_attempt) fun listed =>
      spec_ite (fun _ => ?_) fun _ => spec_die fun _ => id
  · have hmod : Preserves (fun s : Session γ τ χ => Recorded setup n s.world)
        (modify fun s => { s with world := resetStaleInProgress s.world }) :=
      preserves_modify fun s h => h.reset
    refine (hmvs elsewhere_call).bind fun outcome => ?_
    cases outcome with
    | dies => exact spec_die fun _ => id
    | _ => exact hmod
  refine preserves_get.bind fun t => Preserves.bind ?_ fun turns =>
    (hmvs (elsewhere_writeManifest _)).bind fun _ => preserves_pure
  refine Preserves.bind (spec_mapEach fun m _ => recorded_dropIfIdle m) fun drops => ?_
  refine Preserves.bind (htur ?_ fun m h => elsewhere_ingestTurn h _ _) fun added =>
    preserves_get.bind fun s => ?_
  · rw [mem_sortIngestionOrder]
    exact fun h => hn (mem_of_mem_filter h)
  refine Preserves.bind (htur ?_ fun m h => elsewhere_ingestTurn h _ _) fun resumed =>
    preserves_get.bind fun s => ?_
  · exact fun h => hn (mem_of_mem_filter (mem_of_mem_filter ((mem_insertionSort _).mp h)))
  refine Preserves.bind (htur ?_ fun m h => elsewhere_checkTurn h _ _ _) fun checked =>
    preserves_pure
  rw [mem_sortIngestionOrder]
  exact fun h => hn (mem_of_mem_filter (mem_of_mem_filter h))

/-! ### Runs -/

variable {path : Path}

omit [DecidableEq τ] in
/-- A file that is written has a modification time that is not recorded, so that what is
recorded stays right. -/
theorem Recorded.writeFile {file : File γ τ} (h : Recorded setup n w)
    (hw : ∀ entry ∈ w.collections.items, Dict.get entry.2.fileMtimes path ≠ some file.mtime) :
    Recorded setup n { w with files := w.files.insert (path, file) } := by
  intro progress hs hg hd q file' hf hmt
  have hne : q ≠ path := by
    rintro rfl
    obtain rfl : file = file' := some.inj ((Dict.get_insert_self _ _ _).symm.trans hf)
    exact hw (n, progress) (Dict.get_eq_some_iff.mp hg) hmt
  have heq : Dict.get (w.files.insert (path, file)) q = Dict.get w.files q :=
    Dict.get_insert_of_ne _ hne _
  have hchs := h progress hs hg hd q file' (heq.symm.trans hf) hmt
  rw [chunksOf] at hchs ⊢
  rw [heq]
  exact hchs

omit [DecidableEq τ] in
theorem Recorded.removeFile (h : Recorded setup n w) :
    Recorded setup n { w with files := w.files.erase path } := by
  intro progress hs hg hd q file hf hmt
  have heq : Dict.get (w.files.erase path) q = Dict.get w.files q := by
    rw [Dict.get_erase, if_neg]
    rintro rfl
    rw [Dict.get_erase, if_pos rfl] at hf
    cases hf
  have hchs := h progress hs hg hd q file (heq.symm.trans hf) hmt
  rw [chunksOf] at hchs ⊢
  rw [heq]
  exact hchs

/-- **What is recorded stays right**, event by event. -/
theorem recorded_step {w' : World γ τ χ} {e : Event γ τ} (hg : Good setup w e)
    (h : ∀ n, Recorded setup n w) (hs : step setup w e = some w') (n : Name) :
    Recorded setup n w' := by
  cases e with
  | sync activeModel replies =>
    cases hs
    by_cases hn : n ∈ (buildDesired setup w.config).items.map Prod.fst
    · obtain ⟨⟨m, root⟩, hm, rfl⟩ := List.mem_map.mp hn
      have hes := spec_sync hm hg (h m) (w.start replies) rfl
      revert hes
      rw [World.sync]
      obtain ⟨_ | result, s⟩ := sync setup w.config activeModel (w.start replies)
      · exact id
      · exact And.left
    · have hes := recorded_sync activeModel hn (w.start replies) (h n)
      revert hes
      rw [World.sync]
      obtain ⟨_ | result, s⟩ := sync setup w.config activeModel (w.start replies)
      · exact id
      · exact id
  | delete m dropped =>
    cases hs
    have hkp : Keeps setup n [.delete m dropped] w (w.delete setup m dropped) :=
      keeps_delete m dropped mem_cons_self
    rcases hkp.table with htab | ⟨hnn, -⟩
    · exact (h n).congr rfl rfl htab
    · intro progress hsm
      rw [hnn] at hsm
      cases hsm
  | configure paths | directories paths =>
    cases hs
    exact (h n).congr rfl rfl rfl
  | writeFile path file =>
    cases hs
    exact (h n).writeFile hg
  | removeFile path =>
    cases hs
    exact (h n).removeFile

/-- **A sync without errors brings the collections in line**, in every run that starts
without tables and in which every step is a good one: a configured collection that is not
deleted meanwhile holds one document for each eligible file, with the chunks of its present
content, and no other. -/
theorem converged_of_good {w₀ : World γ τ χ} {events : List (Event γ τ)} {result : SyncResult}
    (hstart : w₀.tables = Keyed.empty)
    (hgood : Along (step setup) (Good setup) w₀ (events ++ [.sync activeModel replies]))
    (hrun : run (step setup) w₀ events = some w)
    (hsync : w.sync setup activeModel replies = (some result, s))
    (herrors : result.errors = []) (hok : s.failed = false)
    (hdesired : (n, root) ∈ buildDesired setup w.config) (hconfigured : root ∈ s.world.config)
    (hkept : NeverDeleted n (replies.flatMap Reply.edits)) :
    Converged setup s.world n root := by
  have hst' : ∀ n, Recorded setup n w₀ := fun n progress hs => by
    rw [hstart, Dict.get_empty] at hs
    cases hs
  have hrecd : ∀ n, Recorded setup n w :=
    run_invariant_along (fun s e s' hC hI hst => recorded_step hC hI hst) hgood.of_append hst' hrun
  have hl := hgood.after hrun
  have hes := spec_sync hdesired hl.1 (hrecd n) (w.start replies) rfl
  rw [World.sync] at hsync
  rw [hsync] at hes
  exact hes.2 hkept herrors hok hconfigured

/-! ### Two runs -/

instance [DecidableEq χ] (files : Dict Path (File γ τ)) (root : Path) (rows : Rows χ)
    (processed : List Path) : Decidable (Resumable setup files root rows processed) :=
  decidable_of_iff' _ (resumable_iff ..)

instance [DecidableEq χ] (files : Dict Path (File γ τ)) (root : Path) (rows : Rows χ)
    (progress : Option (CollectionProgress τ)) (activeModel : String) (replies : List Reply) :
    Decidable (Checkable setup files root rows progress activeModel replies) :=
  decidable_of_iff' _ (checkable_iff ..)

instance [DecidableEq χ] (w : World γ τ χ) (activeModel : Name → String) (replies : List Reply)
    (name : Name) (root : Path) : Decidable (Ready setup w activeModel replies name root) :=
  inferInstanceAs (Decidable (if _ ∧ _ then _ else _))

instance (config : List Path) (edits : List Edit) : Decidable (Undisturbed setup config edits) :=
  inferInstanceAs (Decidable ((∀ e ∈ edits, e.deleted = none) ∨ (∀ e ∈ edits, e.deleted ≠ none) ∧
    ∀ p ∈ config, ∀ q ∈ config,
      pathToCollectionName setup p = pathToCollectionName setup q → p = q))

instance [DecidableEq χ] (w : World γ τ χ) (e : Event γ τ) : Decidable (Good setup w e) := by
  unfold Good
  split <;> infer_instance

def sampleSetup : Setup String String where
  chunks _ content := if content = "" then [] else [content]
  denied _ _ := false
  lower s := s
  sha1 _ := "000000"
  pinnedCollections := []
  maxDiscoveredFiles := 100
  chunkSize := 512
  autoReindexOnChunkSizeChange := false

def sampleRoot : Path := ["srv", "docs"]

def samplePath (name : String) : Path := sampleRoot ++ [name]

def sampleWorld : World String ℕ String where
  files := Keyed.empty
  directories := [sampleRoot]
  config := [sampleRoot]
  tables := Keyed.empty
  collections := Keyed.empty
  manifest := Keyed.empty

def sampleSync (calls : ℕ) : Event String ℕ := .sync (fun _ => "") (List.replicate calls {})

def sampleWrite (name content : String) (mtime : ℕ) : Event String ℕ :=
  .writeFile (samplePath name) ⟨content, mtime⟩

/-- The first sync dies when it has ingested the two files, the next one starts again; then
one of them is edited and the other one is deleted. -/
def sampleEvents : List (Event String ℕ) :=
  [sampleWrite "a.md" "one" 1, sampleWrite "b.md" "two" 2, sampleSync 9, sampleSync 20,
    sampleWrite "a.md" "three" 3, .removeFile (samplePath "b.md")]

theorem exists_sync_of_any (events : List (Event String ℕ)) (replies : List Reply)
    (Q : World String ℕ String → SyncResult → Session String ℕ String → Prop)
    [∀ w result s, Decidable (Q w result s)]
    (h : (run (step sampleSetup) sampleWorld events).any (fun w =>
      (w.sync sampleSetup (fun _ => "") replies).1.any fun result =>
        decide (Q w result (w.sync sampleSetup (fun _ => "") replies).2)) = true) :
    ∃ w result s, run (step sampleSetup) sampleWorld events = some w ∧
      w.sync sampleSetup (fun _ => "") replies = (some result, s) ∧ Q w result s := by
  obtain ⟨w, hr, hany⟩ := (Option.any_eq_true _ _).mp h
  obtain ⟨result, hres, hQ⟩ := (Option.any_eq_true _ _).mp hany
  exact ⟨w, result, _, hr, Prod.ext hres rfl, of_decide_eq_true hQ⟩

set_option synthInstance.maxSize 256 in
/-- The last sync brings the collection in line with the file that is left. -/
theorem converged_of_good_sampleEvents :
    ∃ w result s, run (step sampleSetup) sampleWorld sampleEvents = some w ∧
      w.sync sampleSetup (fun _ => "") (List.replicate 20 {}) = (some result, s) ∧
      s.world.rows "docs" = [(samplePath "a.md", "three")] ∧
      Converged sampleSetup s.world "docs" sampleRoot := by
  obtain ⟨w, result, s, hr, hsync, ⟨herrs, hok, hdes, hconf⟩, hrw⟩ :=
    exists_sync_of_any sampleEvents (List.replicate 20 {})
      (fun w result s => (result.errors = [] ∧ s.failed = false ∧
        ("docs", sampleRoot) ∈ (buildDesired sampleSetup w.config).items ∧
        sampleRoot ∈ s.world.config) ∧
        s.world.rows "docs" = [(samplePath "a.md", "three")]) (by decide +kernel)
  have hg : Along (step sampleSetup) (Good sampleSetup) sampleWorld
      (sampleEvents ++ [sampleSync 20]) := by decide +kernel
  have hk : NeverDeleted "docs" ((List.replicate 20 {}).flatMap Reply.edits) := by
    unfold NeverDeleted
    decide
  exact ⟨w, result, s, hr, hsync, hrw, converged_of_good rfl hg hr hsync herrs hok hdes hconf hk⟩

/-- A collection is deleted and its path is configured again. The indexing state still says
that the file was processed: the next sync passes over it, reports that the collection was
added, and leaves it without a table. -/
theorem not_converged_after_delete :
    ∃ w result s, run (step sampleSetup) sampleWorld
        [sampleWrite "a.md" "one" 1, sampleSync 20, .delete "docs" true,
          .configure [sampleRoot]] = some w ∧
      w.sync sampleSetup (fun _ => "") (List.replicate 20 {}) = (some result, s) ∧
      result.errors = [] ∧ result.added = ["docs"] ∧ s.failed = false ∧
      sampleRoot ∈ s.world.config ∧ Dict.get s.world.tables "docs" = none ∧
      ¬Converged sampleSetup s.world "docs" sampleRoot := by
  obtain ⟨w, result, s, hr, hsync, ⟨herrs, hadd, hok, hconf, htab⟩, hdif⟩ :=
    exists_sync_of_any
      [sampleWrite "a.md" "one" 1, sampleSync 20, .delete "docs" true, .configure [sampleRoot]]
      (List.replicate 20 {})
      (fun w result s => (result.errors = [] ∧ result.added = ["docs"] ∧ s.failed = false ∧
        sampleRoot ∈ s.world.config ∧ Dict.get s.world.tables "docs" = none) ∧
        s.world.contents "docs" (samplePath "a.md") ≠
          if samplePath "a.md" ∈
              iterEligibleFiles sampleSetup s.world.files sampleRoot then
            chunksOf sampleSetup s.world.files (samplePath "a.md")
          else []) (by decide +kernel)
  exact ⟨w, result, s, hr, hsync, herrs, hadd, hok, hconf, htab,
    fun h => hdif (h (samplePath "a.md"))⟩

end ArchonSearch.Sync
