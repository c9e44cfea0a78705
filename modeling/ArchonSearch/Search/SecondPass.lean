import Mathlib.Algebra.Order.BigOperators.Group.List
import ArchonSearch.Search.Fusion

/-!
# The second pass of RAG Fusion

RAG Fusion searches for several variants of a query and fuses what they find. A chunk gets from
each variant what it gets from a leg of a hybrid search, by its place there, and `secondPassScore`
is the sum over all variants. The fused list has the chunks of all variants, each once, by falling
score (`pairwise_fuse`); so a chunk that is nowhere behind another and somewhere ahead of it has
the higher score (`secondPassScore_lt_of_outranks`).

The candidates of the fused list do not know this score: each is that of the variant that ranks its
chunk best, and keeps the score that it has there.
-/

namespace ArchonSearch.Search

open Lib List FusedEntry

/-! ### The score -/

/-- The place of a chunk in what a variant finds, the last of all if the variant has not found
it. -/
def place (variant : List Candidate) (chunkId : String) : WithTop ℕ :=
  ((variant.map Candidate.chunkId).idxOf? chunkId).elim ⊤ WithTop.some

def secondPassScore (variants : List (List Candidate)) (chunkId : String) : ℚ :=
  (variants.map fun variant => placeScore (place variant chunkId)).sum

def Outranks (variants : List (List Candidate)) (a b : String) : Prop :=
  (∀ variant ∈ variants, place variant a ≤ place variant b) ∧
    ∃ variant ∈ variants, place variant a < place variant b

/-- **A chunk that outranks another has the higher score.** -/
theorem secondPassScore_lt_of_outranks {variants : List (List Candidate)} {a b : String}
    (h : Outranks variants a b) : secondPassScore variants b < secondPassScore variants a := by
  obtain ⟨hle, variant, hvar, hlt⟩ := h
  refine sum_lt_sum _ _ (fun v hv => ?_) ⟨variant, hvar, ?_⟩
  · exact placeScore_strictAnti.antitone (hle v hv)
  · exact placeScore_strictAnti hlt

/-! ### What the fusion adds up -/

def scoreSoFar (entries : Keyed chunkId) (chunkId : String) : ℚ :=
  (entries.get? chunkId).elim 0 score

def added (chunkId : String) (ranked : Candidate × ℕ) : ℚ :=
  if ranked.1.chunkId = chunkId then rrfScoreAt ranked.2 else 0

/-- One candidate writes the entry of its chunk, and adds to its score. -/
theorem fuseStep_eq (entries : Keyed chunkId) (ranked : Candidate × ℕ) :
    ∃ entry, fuseStep entries ranked = entries.insert entry ∧
      entry.chunkId = ranked.1.chunkId ∧
      entry.score = scoreSoFar entries ranked.1.chunkId + rrfScoreAt ranked.2 := by
  obtain ⟨c, index⟩ := ranked
  unfold fuseStep scoreSoFar
  dsimp only
  split
  · next hg =>
    rw [hg]
    exact ⟨_, rfl, rfl, (zero_add _).symm⟩
  · next entry hg =>
    rw [hg]
    refine ⟨_, rfl, ?_, rfl⟩
    have hent : entry.candidate.chunkId = c.chunkId := (Keyed.get?_eq_some_iff.mp hg).2
    split_ifs
    · rfl
    · exact hent

theorem get?_fuseStep_of_ne {entries : Keyed chunkId} {ranked : Candidate × ℕ}
    {chunkId : String} (h : ranked.1.chunkId ≠ chunkId) :
    (fuseStep entries ranked).get? chunkId = entries.get? chunkId := by
  obtain ⟨entry, heq, hch, -⟩ := fuseStep_eq entries ranked
  rw [heq, Keyed.get?_insert, hch, if_neg (Ne.symm h)]

theorem get?_fuseStep_self (entries : Keyed chunkId) (ranked : Candidate × ℕ) :
    ∃ entry, (fuseStep entries ranked).get? ranked.1.chunkId = some entry ∧
      entry.score = scoreSoFar entries ranked.1.chunkId + rrfScoreAt ranked.2 := by
  obtain ⟨entry, heq, hch, hsc⟩ := fuseStep_eq entries ranked
  refine ⟨entry, ?_, hsc⟩
  rw [heq, Keyed.get?_insert, hch, if_pos rfl]

theorem scoreSoFar_fuseStep (entries : Keyed chunkId) (ranked : Candidate × ℕ)
    (chunkId : String) :
    scoreSoFar (fuseStep entries ranked) chunkId =
      scoreSoFar entries chunkId + added chunkId ranked := by
  by_cases h : ranked.1.chunkId = chunkId
  · subst h
    obtain ⟨entry, hg, hsc⟩ := get?_fuseStep_self entries ranked
    rw [scoreSoFar, hg, added, if_pos rfl]
    exact hsc
  · rw [scoreSoFar, get?_fuseStep_of_ne h, added, if_neg h, add_zero]
    rfl

theorem scoreSoFar_foldl (l : List (Candidate × ℕ)) (entries : Keyed chunkId)
    (chunkId : String) :
    scoreSoFar (l.foldl fuseStep entries) chunkId =
      scoreSoFar entries chunkId + (l.map (added chunkId)).sum := by
  induction l generalizing entries with
  | nil => simp
  | cons ranked l ih =>
    rw [foldl_cons, ih, scoreSoFar_fuseStep, map_cons, sum_cons, add_assoc]

/-- A variant that finds no chunk twice adds what the place is worth. -/
theorem sum_added_zipIdx {variant : List Candidate}
    (h : (variant.map Candidate.chunkId).Nodup) (chunkId : String) :
    (variant.zipIdx.map (added chunkId)).sum = placeScore (place variant chunkId) := by
  have hfrom : ∀ start, ((variant.zipIdx start).map (added chunkId)).sum =
      ((variant.map Candidate.chunkId).idxOf? chunkId).elim 0 fun i => rrfScoreAt (i + start) := by
    induction variant with
    | nil => exact fun start => rfl
    | cons c variant ih =>
      intro start
      obtain ⟨hc, hvar⟩ := nodup_cons.mp h
      rw [zipIdx_cons, map_cons, sum_cons, ih hvar, map_cons, idxOf?_cons, added]
      by_cases heq : c.chunkId = chunkId
      · -- the rest does not find it again
        have hrs : (variant.map Candidate.chunkId).idxOf? chunkId = none :=
          idxOf?_eq_none_iff.mpr (heq ▸ hc)
        simp [heq, hrs]
      · rw [if_neg heq, zero_add]
        cases (variant.map Candidate.chunkId).idxOf? chunkId <;>
          simp [heq, Nat.add_comm, Nat.add_left_comm]
  have hz := hfrom 0
  rw [hz, place]
  cases (variant.map Candidate.chunkId).idxOf? chunkId <;> rfl

def fusedEntries (variants : List (List Candidate)) : Keyed chunkId :=
  (variants.flatMap List.zipIdx).foldl fuseStep Keyed.empty

variable {variants : List (List Candidate)}

/-- **What is accumulated is the second-pass score.** -/
theorem scoreSoFar_fusedEntries (h : ∀ variant ∈ variants, (variant.map Candidate.chunkId).Nodup)
    (chunkId : String) :
    scoreSoFar (fusedEntries variants) chunkId = secondPassScore variants chunkId := by
  have hn : scoreSoFar Keyed.empty chunkId = 0 := rfl
  rw [fusedEntries, scoreSoFar_foldl, hn, zero_add, secondPassScore]
  induction variants with
  | nil => rfl
  | cons variant variants ih =>
    obtain ⟨hvar, hrs⟩ := forall_mem_cons.mp h
    rw [flatMap_cons, map_append, sum_append, ih hrs, map_cons, sum_cons, sum_added_zipIdx hvar]

/-! ### The fused list -/

/-- **The fused list** is by falling second-pass score. -/
theorem pairwise_fuse (h : ∀ variant ∈ variants, (variant.map Candidate.chunkId).Nodup) :
    (fuseRagFusionResults variants).Pairwise fun a b =>
      secondPassScore variants b.chunkId ≤ secondPassScore variants a.chunkId := by
  have hsc : ∀ entry ∈ fusedEntries variants,
      entry.score = secondPassScore variants entry.candidate.chunkId := by
    intro entry hent
    have hg : (fusedEntries variants).get? entry.candidate.chunkId = some entry :=
      Keyed.get?_key hent
    rw [← scoreSoFar_fusedEntries h, scoreSoFar, hg]
    rfl
  refine pairwise_map.mpr ?_
  have htot : Std.Total fun a b : FusedEntry => b.score ≤ a.score :=
    ⟨fun a b => le_total b.score a.score⟩
  have htrans : IsTrans FusedEntry fun a b => b.score ≤ a.score :=
    ⟨fun _ _ _ hab hbc => hbc.trans hab⟩
  have hsort := pairwise_insertionSort (fun a b : FusedEntry => b.score ≤ a.score)
    (fusedEntries variants).items
  refine hsort.imp_of_mem fun {a b} ha hb hab => ?_
  rw [← hsc a ((mem_insertionSort _).mp ha), ← hsc b ((mem_insertionSort _).mp hb)]
  exact hab

end ArchonSearch.Search
