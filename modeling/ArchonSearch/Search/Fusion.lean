import ArchonSearch.Search.Explain

/-!
# The order of a hybrid search

A chunk is ranked by the sum of what it gets from the two legs, and what it gets from a leg falls
with its place there: `1 / 61` for the first, less for each after it, and nothing for a chunk that
the leg has not found. So places compare as they do in `WithTop ℕ`, absence being the last place
(`placeIn`), and a chunk that is nowhere behind another and somewhere ahead of it has the higher
score (`fusedScore_lt_of_dominates`).

What a hybrid search returns is the union of the legs, each chunk once, by falling score and then
by chunk id (`hybridSearch_fuses`).
-/

namespace ArchonSearch.Search

open Lib List Row

/-! ### Places -/

def placeIn (rows : List Row) (chunkId : String) : WithTop ℕ :=
  ((rows.map Row.chunkId).idxOf? chunkId).elim ⊤ WithTop.some

variable {rows : List Row}

/-- The rows of a leg are in the order of their places. -/
theorem pairwise_placeIn (h : (rows.map chunkId).Nodup) :
    rows.Pairwise fun a b => placeIn rows a.chunkId < placeIn rows b.chunkId := by
  have hplace (i : ℕ) (hi : i < rows.length) : placeIn rows rows[i].chunkId = i := by
    have hs : (rows.map chunkId).idxOf? rows[i].chunkId = some i := by
      have hi' : i < (rows.map chunkId).length := by rwa [length_map]
      refine idxOf?_eq_some_iff.mpr ⟨hi', by simp, fun j hj heq => ?_⟩
      have hj' : j < (rows.map chunkId).length := hj.trans hi'
      have hij : (rows.map chunkId)[j] = (rows.map chunkId)[i] := by simpa using heq
      exact hj.ne (h.getElem_inj_iff.mp hij)
    rw [placeIn, hs]
    rfl
  refine pairwise_iff_getElem.mpr fun i j hi hj hij => ?_
  rw [hplace i hi, hplace j hj]
  exact WithTop.coe_lt_coe.mpr hij

def placeScore : WithTop ℕ → ℚ
  | ⊤ => 0
  | (rank : ℕ) => rrfScoreAt rank

/-- The rank that the code keeps is the place, where no chunk is found twice. -/
theorem rankIn_eq_idxOf? (h : (rows.map Row.chunkId).Nodup) (chunkId : String) :
    rankIn rows chunkId = (rows.map Row.chunkId).idxOf? chunkId := by
  have hfrom : ∀ start, (((rows.zipIdx start).filter fun entry =>
      entry.1.chunkId = chunkId).getLast?).map Prod.snd =
        ((rows.map Row.chunkId).idxOf? chunkId).map (· + start) := by
    induction rows with
    | nil => exact fun start => rfl
    | cons row rows ih =>
      intro start
      rw [map_cons, nodup_cons] at h
      rw [zipIdx_cons, map_cons, idxOf?_cons]
      by_cases hr : row.chunkId = chunkId
      · -- the rest does not find it again
        have hrs : (rows.zipIdx (start + 1)).filter (fun entry =>
            decide (entry.1.chunkId = chunkId)) = [] := by
          refine filter_eq_nil_iff.mpr fun entry hent heq => h.1 ?_
          have hm := mem_map_of_mem (f := Row.chunkId) (fst_mem_of_mem_zipIdx hent)
          rwa [of_decide_eq_true heq, ← hr] at hm
        simp [hr, hrs]
      · rw [filter_cons_of_neg (by simpa using hr), ih h.2 (start + 1)]
        simp [hr, Option.map_map, Function.comp_def, Nat.add_comm, Nat.add_left_comm]
  rw [rankIn, hfrom 0]
  simp

theorem rrfScoreAt_pos (rank : ℕ) : 0 < rrfScoreAt rank := by
  rw [rrfScoreAt]
  positivity

/-- **An earlier place adds more.** -/
theorem placeScore_strictAnti : StrictAnti placeScore := by
  intro a b hab
  cases a with
  | top => exact absurd hab not_top_lt
  | coe a =>
    cases b with
    | top => exact rrfScoreAt_pos a
    | coe b =>
      have hlt : (a : ℚ) < b := by exact_mod_cast WithTop.coe_lt_coe.mp hab
      have hpos : (0 : ℚ) ≤ a := Nat.cast_nonneg a
      change rrfScoreAt b < rrfScoreAt a
      rw [rrfScoreAt, rrfScoreAt]
      exact one_div_lt_one_div_of_lt (by linarith) (by linarith)

/-- The fused score is the sum of what the two places add. -/
theorem fusedScore_eq {vecRows ftsRows : List Row} (hvec : (vecRows.map chunkId).Nodup)
    (hfts : (ftsRows.map chunkId).Nodup) (chunkId : String) :
    fusedScore vecRows ftsRows chunkId =
      placeScore (placeIn vecRows chunkId) + placeScore (placeIn ftsRows chunkId) := by
  have hadds (rows : List Row) : ((rows.map Row.chunkId).idxOf? chunkId).elim 0 rrfScoreAt =
      placeScore (placeIn rows chunkId) := by
    unfold placeIn
    cases (rows.map Row.chunkId).idxOf? chunkId <;> rfl
  rw [fusedScore, rankIn_eq_idxOf? hvec, rankIn_eq_idxOf? hfts, hadds, hadds]

/-- `a` stands no worse than `b` in both lists and better in one. -/
def Dominates (vecRows ftsRows : List Row) (a b : String) : Prop :=
  placeIn vecRows a ≤ placeIn vecRows b ∧ placeIn ftsRows a ≤ placeIn ftsRows b ∧
    (placeIn vecRows a < placeIn vecRows b ∨ placeIn ftsRows a < placeIn ftsRows b)

/-- **Dominance decides.** -/
theorem fusedScore_lt_of_dominates {vecRows ftsRows : List Row} {a b : String}
    (hvec : (vecRows.map chunkId).Nodup) (hfts : (ftsRows.map chunkId).Nodup)
    (h : Dominates vecRows ftsRows a b) :
    fusedScore vecRows ftsRows b < fusedScore vecRows ftsRows a := by
  rw [fusedScore_eq hvec hfts, fusedScore_eq hvec hfts]
  obtain ⟨hv, hf, hlt | hlt⟩ := h
  · exact add_lt_add_of_lt_of_le (placeScore_strictAnti hlt) (placeScore_strictAnti.antitone hf)
  · exact add_lt_add_of_le_of_lt (placeScore_strictAnti.antitone hv) (placeScore_strictAnti hlt)

/-! ### The union of the legs -/

/-- **The rows of the two legs**: those of the vector leg, and what only the other has found. -/
theorem items_mergeRows {vecRows ftsRows : List Row} (hvec : (vecRows.map chunkId).Nodup)
    (hfts : (ftsRows.map chunkId).Nodup) :
    (mergeRows vecRows ftsRows).items =
      vecRows ++ ftsRows.filter fun row => row.chunkId ∉ vecRows.map chunkId := by
  have hfold : ∀ (l : List Row) (all : Keyed chunkId), (l.map chunkId).Nodup →
      (l.foldl (fun all row => if (all.get? row.chunkId).isSome then all else all.insert row)
        all).items = all.items ++ l.filter fun row => row.chunkId ∉ all.items.map chunkId := by
    intro l
    induction l with
    | nil => simp
    | cons row l ih =>
      intro all hnd
      obtain ⟨hrw, hl⟩ := nodup_cons.mp hnd
      rw [foldl_cons, ih _ hl]
      by_cases hm : row.chunkId ∈ all.items.map chunkId
      · have hs : (all.get? row.chunkId).isSome = true := by
          obtain ⟨r, hr, heq⟩ := mem_map.mp hm
          rw [Keyed.get?_eq_some_iff.mpr ⟨hr, heq⟩]
          rfl
        rw [if_pos hs, filter_cons_of_neg (by simpa using hm)]
      · have hn : ¬(all.get? row.chunkId).isSome = true := by
          rw [Keyed.get?_eq_none_iff.mpr fun r hr heq => hm (mem_map.mpr ⟨r, hr, heq⟩)]
          decide
        have heq : l.filter (fun r => r.chunkId ∉ (all.items ++ [row]).map chunkId) =
            l.filter fun r => r.chunkId ∉ all.items.map chunkId := by
          refine filter_congr fun r hr => ?_
          have hne : r.chunkId ≠ row.chunkId := fun h => hrw (h ▸ mem_map_of_mem hr)
          simp [hne]
        rw [if_neg hn, Keyed.items_insert_of_notMem hm, heq, filter_cons_of_pos (by simpa using hm)]
        simp
  rw [mergeRows, hfold _ _ hfts, Keyed.items_ofList hvec]

/-- Of two members of a list that are in order, and not the other way round, the first comes
first. -/
theorem sublist_of_pairwise {cs : List Candidate} (hsort : cs.Pairwise Before) {a b : Candidate}
    (ha : a ∈ cs) (hb : b ∈ cs) (hab : b.rrfScore < a.rrfScore) : [a, b].Sublist cs := by
  obtain ⟨before, after, rfl⟩ := append_of_mem ha
  rcases mem_append.mp hb with hb | hb
  · -- one before `a` has no lower score
    have hbef := (pairwise_append.mp hsort).2.2 b hb a mem_cons_self
    rcases hbef with hlt | ⟨heq, -⟩
    · exact absurd hlt hab.asymm
    · exact absurd heq hab.ne
  · rcases mem_cons.mp hb with rfl | hb
    · exact absurd hab (lt_irrefl _)
    · exact (cons_sublist_cons.mpr (singleton_sublist.mpr hb)).trans (sublist_append_right _ _)

variable {ν : Type} {store : Store ν} {collection : String} {table : Table}
  {queryVector : Option ν} {queryText : String} {candidateDepth : ℕ}
  {filters : Option SearchFilters} {scopeFilter : Option String} {vecRows ftsRows : List Row}

/-- What a hybrid search returns, from what its legs have found. -/
theorem hybridSearchWithTrace_eq (htab : store.tables collection = some table)
    (hvec : store.vectorLeg table.rows queryVector (whereHolds (buildWhere filters scopeFilter))
      candidateDepth = some vecRows)
    (hfts : store.ftsLeg table.rows queryText (whereHolds (buildWhere filters scopeFilter))
      candidateDepth = some ftsRows) :
    store.hybridSearchWithTrace collection queryVector queryText candidateDepth filters
        scopeFilter =
      some (sortByScore ((mergeRows vecRows ftsRows).items.map fun row =>
        rowToScoredCandidate row collection (fusedScore vecRows ftsRows row.chunkId))) := by
  unfold Store.hybridSearchWithTrace
  simp only [htab, hvec, hfts]
  rfl

/-- **A hybrid search fuses its legs.** Its candidates are the union of what the legs have found,
each chunk once, by falling score and then by chunk id; the score is the sum of what the places
add. So a chunk that dominates another precedes it; and without a vector the order is that of the
text leg. -/
theorem hybridSearch_fuses (htable : store.tables collection = some table)
    (hvec : store.vectorLeg table.rows queryVector (whereHolds (buildWhere filters scopeFilter))
      candidateDepth = some vecRows)
    (hfts : store.ftsLeg table.rows queryText (whereHolds (buildWhere filters scopeFilter))
      candidateDepth = some ftsRows)
    (hvecNodup : (vecRows.map chunkId).Nodup) (hftsNodup : (ftsRows.map chunkId).Nodup) :
    ∃ cs, store.hybridSearchWithTrace collection queryVector queryText candidateDepth filters
        scopeFilter = some cs ∧
      (cs.map Candidate.chunkId).Nodup ∧
      (∀ id, id ∈ cs.map Candidate.chunkId ↔ id ∈ vecRows.map chunkId ∨ id ∈ ftsRows.map chunkId) ∧
      cs.Pairwise (fun a b =>
        b.rrfScore < a.rrfScore ∨ a.rrfScore = b.rrfScore ∧ a.chunkId < b.chunkId) ∧
      (∀ c ∈ cs, c.rrfScore =
        placeScore (placeIn vecRows c.chunkId) + placeScore (placeIn ftsRows c.chunkId)) ∧
      (∀ a ∈ cs, ∀ b ∈ cs, Dominates vecRows ftsRows a.chunkId b.chunkId → [a, b].Sublist cs) ∧
      (queryVector = none → cs.map Candidate.chunkId = ftsRows.map chunkId) := by
  set candidate : Row → Candidate := fun row =>
    rowToScoredCandidate row collection (fusedScore vecRows ftsRows row.chunkId) with hcan
  have his := items_mergeRows hvecNodup hftsNodup
  set cs := sortByScore ((mergeRows vecRows ftsRows).items.map candidate) with hcs
  have hp : cs.Perm ((mergeRows vecRows ftsRows).items.map candidate) := sortByScore_perm _
  have hsort : cs.Pairwise Before := pairwise_insertionSort Before _
  have hids :
      (cs.map Candidate.chunkId).Perm ((mergeRows vecRows ftsRows).items.map chunkId) := by
    refine (hp.map Candidate.chunkId).trans (Eq.subst ?_ (List.Perm.refl _))
    rw [map_map]
    rfl
  have hnd : (cs.map Candidate.chunkId).Nodup :=
    hids.nodup_iff.mpr (mergeRows vecRows ftsRows).nodup
  have hsc : ∀ c ∈ cs, c.rrfScore = fusedScore vecRows ftsRows c.chunkId := by
    intro c hc
    obtain ⟨row, -, rfl⟩ := mem_map.mp (hp.mem_iff.mp hc)
    rfl
  refine ⟨cs, hybridSearchWithTrace_eq htable hvec hfts, hnd, fun id => ?_, ?_, fun c hc => ?_,
    fun a ha b hb hdom => ?_, fun hn => ?_⟩
  · rw [hids.mem_iff, his, map_append, mem_append]
    constructor
    · rintro (hm | hm)
      · exact Or.inl hm
      · exact Or.inr ((filter_sublist.map _).subset hm)
    · rintro (hm | hm)
      · exact Or.inl hm
      · by_cases hv : id ∈ vecRows.map chunkId
        · exact Or.inl hv
        · obtain ⟨row, hr, rfl⟩ := mem_map.mp hm
          exact Or.inr (mem_map_of_mem (mem_filter.mpr ⟨hr, by simpa using hv⟩))
  · refine (hsort.and (pairwise_map.mp hnd)).imp fun {a b} hab => ?_
    exact hab.1.imp_right fun htie => ⟨htie.1, lt_of_le_of_ne htie.2 hab.2⟩
  · rw [hsc c hc, fusedScore_eq hvecNodup hftsNodup]
  · refine sublist_of_pairwise hsort ha hb ?_
    rw [hsc a ha, hsc b hb]
    exact fusedScore_lt_of_dominates hvecNodup hftsNodup hdom
  · subst hn
    cases hvec
    have hall : (mergeRows [] ftsRows).items = ftsRows := by
      rw [his]
      exact filter_eq_self.mpr fun row _ => rfl
    have hbef : (ftsRows.map candidate).Pairwise Before := by
      refine pairwise_map.mpr ((pairwise_placeIn hftsNodup).imp fun {a b} hab => Or.inl ?_)
      exact fusedScore_lt_of_dominates nodup_nil hftsNodup ⟨le_rfl, hab.le, Or.inr hab⟩
    rw [hcs, hall, sortByScore, hbef.insertionSort_eq, map_map]
    rfl

/-- Two chunks that the legs find in opposite orders are tied, and come by their ids. -/
theorem hybridSearch_fuses_imported :
    ∃ cs, (importedPipeline crossedLance 20).store.hybridSearchWithTrace "notes" (some ()) "q" 20
        none none = some cs ∧ cs.map Candidate.chunkId = ["c", "f"] ∧
      (cs.map Candidate.chunkId).Nodup ∧
      cs.Pairwise fun a b =>
        b.rrfScore < a.rrfScore ∨ a.rrfScore = b.rrfScore ∧ a.chunkId < b.chunkId := by
  have htab : (importedPipeline crossedLance 20).store.tables "notes" =
      some ⟨(importedPipeline crossedLance 20).store.rows "notes", true⟩ := rfl
  have hvec : (importedPipeline crossedLance 20).store.vectorLeg
      ((importedPipeline crossedLance 20).store.rows "notes") (some ())
      (whereHolds (buildWhere none none)) 20 =
        some ((importedPipeline crossedLance 20).store.rows "notes") := rfl
  have hfts : (importedPipeline crossedLance 20).store.ftsLeg
      ((importedPipeline crossedLance 20).store.rows "notes") "q"
      (whereHolds (buildWhere none none)) 20 =
        some ((importedPipeline crossedLance 20).store.rows "notes").reverse := rfl
  obtain ⟨cs, hcs, hnd, -, hsort, -⟩ := hybridSearch_fuses htab hvec hfts
    (by decide +kernel) (by decide +kernel)
  have hids : ((importedPipeline crossedLance 20).store.hybridSearchWithTrace "notes" (some ()) "q"
      20 none none).map (List.map Candidate.chunkId) = some ["c", "f"] := by
    decide +kernel
  rw [hcs] at hids
  exact ⟨cs, hcs, Option.some.inj hids, hnd, hsort⟩

end ArchonSearch.Search
