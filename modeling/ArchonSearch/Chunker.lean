import ArchonSearch.Enrichment
import ArchonSearch.Py.Str

/-!
# The segments of a source file

`ASTChunker` cuts a text at its outermost scopes, and puts adjacent small blocks together again.
What it leaves out is white space, and nothing is in two segments (`buildSegments_cover`): the
segments tile the text (`Tiles`), as the blocks do, whatever the budget.
-/

namespace ArchonSearch.Chunker

open List Enrichment

variable (text : List Char)

/-- `text[a:b]`. -/
def slice (a b : ℕ) : List Char := (text.drop a).take (b - a)

/-- A `(start, end, text)`. -/
structure Segment where
  (start stop : ℕ)
  text : List Char

structure SubChunk extends Segment where
  tokenCount : ℕ

def Blank (cs : List Char) : Prop := ∀ c ∈ cs, Py.isSpace c = true

/-- The chunks are consecutive, from this offset to the end of the text. -/
def Consecutive : (offset : ℕ) → List SubChunk → Prop
  | offset, [] => offset = text.length
  | offset, sub :: subs => sub.start = offset ∧ sub.start ≤ sub.stop ∧
    sub.text = slice text sub.start sub.stop ∧ Consecutive sub.stop subs

/-- A `RecursiveChunker`. -/
structure RecursiveChunker where
  chunk : List Char → List SubChunk
  chunk_of_blank : ∀ cs, Blank cs → chunk cs = []
  consecutive : ∀ cs, ¬Blank cs → Consecutive cs 0 (chunk cs)

instance (e e' : ScopeEntry) : Decidable (e.Within e') := inferInstanceAs (Decidable (_ ∧ _))

/-- `_top_level_scopes`. -/
def topLevelScopes (scopeTable : List ScopeEntry) : List ScopeEntry :=
  (scopeTable.zipIdx.filter fun (entry, i) => scopeTable.zipIdx.all fun (other, j) =>
    i = j ∨ ¬entry.Within other ∨
      (other.start = entry.start ∧ other.stop = entry.stop ∧ j < i)).map Prod.fst

/-- The text between two offsets, if it is not blank. -/
def gap (a b : ℕ) : List Segment :=
  if Py.stripChars (slice text a b) = [] then [] else [⟨a, b, slice text a b⟩]

/-- The blocks of `_build_segments`. -/
def blocks : (cursor : ℕ) → List ScopeEntry → List Segment
  | cursor, [] => if cursor < text.length then gap text cursor text.length else []
  | cursor, scope :: scopes =>
    (if cursor < scope.start then gap text cursor scope.start else []) ++
      ⟨scope.start, scope.stop, slice text scope.start scope.stop⟩ ::
        blocks (max cursor scope.stop) scopes

/-- `cur_start`, `cur_end` and `cur_tokens`; none where `cur_start` is. -/
abbrev Cur := Option (ℕ × ℕ × ℕ)

/-- The segments, with the current one. -/
def flush (segments : List Segment) : Cur → List Segment
  | none => segments
  | some (curStart, curEnd, _) => segments ++ [⟨curStart, curEnd, slice text curStart curEnd⟩]

variable (chunker : RecursiveChunker) (chunkSize : ℕ)

/-- The turn of a block in the merge loop. -/
def mergeStep : List Segment × Cur → Segment → List Segment × Cur
  | (segments, cur), block =>
    match chunker.chunk block.text, cur with
    | [], _ => (segments, cur)
    | [sub], none => (segments, some (block.start, block.stop, sub.tokenCount))
    | [sub], some (curStart, curEnd, curTokens) =>
      if curTokens + sub.tokenCount ≤ chunkSize then
        (segments, some (curStart, block.stop, curTokens + sub.tokenCount))
      else (flush text segments (some (curStart, curEnd, curTokens)),
        some (block.start, block.stop, sub.tokenCount))
    | subs, _ => (flush text segments cur ++ subs.map fun sub =>
        ⟨block.start + sub.start, block.start + sub.stop, sub.text⟩, none)

/-- `_build_segments`. -/
def buildSegments (scopeTable : List ScopeEntry) : List Segment :=
  let topLevel := (topLevelScopes scopeTable).mergeSort fun e e' => e.start ≤ e'.start
  let (segments, cur) :=
    (blocks text 0 topLevel).foldl (mergeStep text chunker chunkSize) ([], none)
  flush text segments cur

/-! ### Tilings -/

/-- **The segments tile the text** between these offsets, up to white space. -/
def Tiles : ℕ → List Segment → ℕ → Prop
  | a, [], b => a ≤ b ∧ Blank (slice text a b)
  | a, s :: l, b => a ≤ s.start ∧ Blank (slice text a s.start) ∧ s.start ≤ s.stop ∧
    s.text = slice text s.start s.stop ∧ Tiles s.stop l b

variable {text} {a b m : ℕ} {l l' : List Segment}

theorem slice_self : slice text a a = [] := by
  rw [slice, Nat.sub_self, take_zero]

theorem slice_append (ham : a ≤ m) (hmb : m ≤ b) :
    slice text a m ++ slice text m b = slice text a b := by
  rw [slice, slice, slice, show b - a = (m - a) + (b - m) by omega, take_add, drop_drop,
    Nat.add_sub_of_le ham]

theorem mem_slice {i : ℕ} {c : Char} (hc : text[i]? = some c) (ha : a ≤ i) (hb : i < b) :
    c ∈ slice text a b := by
  refine mem_of_getElem? (i := i - a) ?_
  rw [slice, getElem?_take_of_lt (by omega), getElem?_drop, Nat.add_sub_of_le ha, hc]

theorem Blank.slice_append (h : Blank (slice text a m)) (h' : Blank (slice text m b)) (ham : a ≤ m)
    (hmb : m ≤ b) : Blank (slice text a b) := by
  rw [← Chunker.slice_append ham hmb]
  exact forall_mem_append.mpr ⟨h, h'⟩

theorem tiles_nil (a : ℕ) : Tiles text a [] a :=
  ⟨le_rfl, by rw [slice_self]; exact nofun⟩

theorem Tiles.le (h : Tiles text a l b) : a ≤ b := by
  induction l generalizing a with
  | nil => exact h.1
  | cons s l ih => exact h.1.trans (h.2.2.1.trans (ih h.2.2.2.2))

theorem Tiles.append (h : Tiles text a l m) (h' : Tiles text m l' b) :
    Tiles text a (l ++ l') b := by
  induction l generalizing a with
  | nil =>
    rcases l' with _ | ⟨s, l'⟩
    · exact ⟨h.1.trans h'.1, h.2.slice_append h'.2 h.1 h'.1⟩
    · exact ⟨h.1.trans h'.1, h.2.slice_append h'.2.1 h.1 h'.1, h'.2.2⟩
  | cons s l ih =>
    obtain ⟨hle, hbl, hstop, htx, hrs⟩ := h
    exact ⟨hle, hbl, hstop, htx, ih hrs⟩

theorem tiles_singleton (h : a ≤ b) : Tiles text a [⟨a, b, slice text a b⟩] b :=
  ⟨le_rfl, (tiles_nil a).2, h, rfl, tiles_nil b⟩

theorem Tiles.of_concat {s : Segment} (h : Tiles text a (l ++ [s]) b) :
    Tiles text a l s.start ∧ s.start ≤ b := by
  induction l generalizing a with
  | nil => exact ⟨⟨h.1, h.2.1⟩, h.2.2.1.trans h.2.2.2.2.1⟩
  | cons t l ih =>
    obtain ⟨hle, hbl, hstop, htx, hrs⟩ := h
    obtain ⟨hl, hs⟩ := ih hrs
    exact ⟨⟨hle, hbl, hstop, htx, hl⟩, hs⟩

/-- What is not white space is in exactly one segment of a tiling. -/
theorem Tiles.spec (h : Tiles text a l b) :
    (∀ s ∈ l, a ≤ s.start ∧ s.text = slice text s.start s.stop) ∧
      l.Pairwise (fun s s' => s.start ≤ s'.start ∧ s.stop ≤ s'.start) ∧
      ∀ i c, text[i]? = some c → Py.isSpace c = false → a ≤ i → i < b →
        l.countP (fun s => s.start ≤ i ∧ i < s.stop) = 1 := by
  induction l generalizing a with
  | nil =>
    refine ⟨nofun, Pairwise.nil, fun i c hc hspace ha hb => ?_⟩
    exact absurd (h.2 c (mem_slice hc ha hb)) (by simp [hspace])
  | cons s l ih =>
    obtain ⟨hle, hbl, hstop, htx, hrs⟩ := h
    obtain ⟨hm, hpr, hcount⟩ := ih hrs
    refine ⟨forall_mem_cons.mpr ⟨⟨hle, htx⟩, fun s' hs' => ?_⟩,
      pairwise_cons.mpr ⟨fun s' hs' => ?_, hpr⟩, fun i c hc hspace ha hb => ?_⟩
    · exact ⟨hle.trans (hstop.trans (hm s' hs').1), (hm s' hs').2⟩
    · exact ⟨hstop.trans (hm s' hs').1, (hm s' hs').1⟩
    · have hst : s.start ≤ i := by
        by_contra hlt
        exact absurd (hbl c (mem_slice hc ha (not_le.mp hlt))) (by simp [hspace])
      by_cases hin : i < s.stop
      · have hn : l.countP (fun s => s.start ≤ i ∧ i < s.stop) = 0 := by
          refine countP_eq_zero.mpr fun s' hs' h => ?_
          have := (hm s' hs').1
          have := (of_decide_eq_true h).1
          omega
        rw [countP_cons_of_pos (by simp [hst, hin]), hn]
      · rw [countP_cons_of_neg (by simp [hin])]
        exact hcount i c hc hspace (not_lt.mp hin) hb

/-! ### The blocks -/

theorem tiles_gap (h : a ≤ b) : Tiles text a (if a < b then gap text a b else []) b := by
  by_cases hlt : a < b
  · rw [if_pos hlt, gap]
    split
    · next hbl => exact ⟨h, Py.stripChars_eq_nil_iff.mp hbl⟩
    · exact tiles_singleton h
  · rw [if_neg hlt, h.antisymm (not_lt.mp hlt)]
    exact tiles_nil b

theorem tiles_blocks {scopes : List ScopeEntry} {cursor : ℕ}
    (hpr : scopes.Pairwise fun e e' => e.stop ≤ e'.start)
    (hrange : ∀ e ∈ scopes, e.start ≤ e.stop ∧ e.stop ≤ text.length)
    (hcursor : ∀ e ∈ scopes, cursor ≤ e.start) (hle : cursor ≤ text.length) :
    Tiles text cursor (blocks text cursor scopes) text.length := by
  induction scopes generalizing cursor with
  | nil => exact tiles_gap hle
  | cons scope scopes ih =>
    obtain ⟨hstop, hpr⟩ := pairwise_cons.mp hpr
    obtain ⟨⟨hsc, hlen⟩, hrange⟩ := forall_mem_cons.mp hrange
    have hst := hcursor scope mem_cons_self
    rw [blocks, max_eq_right (hst.trans hsc)]
    exact (tiles_gap hst).append ((tiles_singleton hsc).append (ih hpr hrange hstop hlen))

theorem mem_of_mem_topLevel {scopeTable : List ScopeEntry} {e : ScopeEntry}
    (he : e ∈ topLevelScopes scopeTable) : e ∈ scopeTable := by
  obtain ⟨⟨e, i⟩, hm, rfl⟩ := mem_map.mp he
  exact fst_mem_of_mem_zipIdx (mem_filter.mp hm).1

/-- Outermost scopes, by their start, are one after the other. -/
theorem pairwise_topLevel {scopeTable : List ScopeEntry}
    (hrange : ∀ e ∈ scopeTable, e.start ≤ e.stop ∧ e.stop ≤ text.length)
    (hnested : scopeTable.Pairwise ScopeEntry.NestedOrDisjoint) :
    ((topLevelScopes scopeTable).mergeSort fun e e' => e.start ≤ e'.start).Pairwise
      fun e e' => e.stop ≤ e'.start := by
  have hapart : (topLevelScopes scopeTable).Pairwise fun e e' =>
      ¬e.Within e' ∧ ¬e'.Within e ∧ (e.stop ≤ e'.start ∨ e'.stop ≤ e.start) := by
    have hindex : scopeTable.zipIdx.Pairwise fun x y =>
        x.2 < y.2 ∧ x.1.NestedOrDisjoint y.1 := by
      refine Pairwise.and (pairwise_map.mp ?_) (pairwise_map.mp ?_)
      · rw [zipIdx_map_snd]
        exact pairwise_lt_range'
      · rwa [zipIdx_map_fst]
    refine pairwise_map.mpr ((hindex.filter _).imp_of_mem fun {x y} hx hy h => ?_)
    obtain ⟨hx, houter⟩ := mem_filter.mp hx
    obtain ⟨hy, houter'⟩ := mem_filter.mp hy
    have hxy := of_decide_eq_true (all_eq_true.mp houter y hy)
    have hyx := of_decide_eq_true (all_eq_true.mp houter' x hx)
    obtain ⟨hlt, hnested⟩ := h
    unfold ScopeEntry.NestedOrDisjoint at hnested
    unfold ScopeEntry.Within at *
    omega
  have hsorted : ((topLevelScopes scopeTable).mergeSort fun e e' => e.start ≤ e'.start).Pairwise
      fun e e' => decide (e.start ≤ e'.start) = true :=
    pairwise_mergeSort (fun _ _ _ h h' => by simp at h h' ⊢; omega) (fun _ _ => by simp; omega) _
  have hp := mergeSort_perm (topLevelScopes scopeTable) fun e e' => e.start ≤ e'.start
  have hapart' := (hp.pairwise_iff fun h => ⟨h.2.1, h.1, h.2.2.symm⟩).mpr hapart
  refine (hsorted.and hapart').imp_of_mem fun {e e'} he he' h => ?_
  have hr := hrange e (mem_of_mem_topLevel (mem_mergeSort.mp he))
  have hr' := hrange e' (mem_of_mem_topLevel (mem_mergeSort.mp he'))
  obtain ⟨hst, hwithin, hwithin', hdisjoint⟩ := h
  have hst := of_decide_eq_true hst
  unfold ScopeEntry.Within at hwithin hwithin'
  omega

/-! ### The merge loop -/

theorem Consecutive.le {offset : ℕ} {subs : List SubChunk} (h : Consecutive text offset subs) :
    offset ≤ text.length := by
  induction subs generalizing offset with
  | nil => exact Nat.le_of_eq h
  | cons sub subs ih => exact h.1.ge.trans (h.2.1.trans (ih h.2.2.2))

theorem slice_slice {c d : ℕ} (h : d ≤ b - a) :
    slice (slice text a b) c d = slice text (a + c) (a + d) := by
  rw [slice, slice, slice, drop_take, take_take, drop_drop]
  congr 1
  omega

theorem tiles_consecutive (hle : a ≤ b) (hlen : b ≤ text.length) {offset : ℕ}
    {subs : List SubChunk} (h : Consecutive (slice text a b) offset subs) :
    Tiles text (a + offset) (subs.map fun sub => ⟨a + sub.start, a + sub.stop, sub.text⟩) b := by
  have hlength : (slice text a b).length = b - a := by
    rw [slice, length_take, length_drop]
    omega
  induction subs generalizing offset with
  | nil =>
    rw [show a + offset = b by rw [h, hlength]; omega]
    exact tiles_nil b
  | cons sub subs ih =>
    obtain ⟨rfl, hstop, htx, hrs⟩ := h
    refine ⟨le_rfl, (tiles_nil _).2, Nat.add_le_add_left hstop a, ?_, ih hrs⟩
    exact htx.trans (slice_slice (hrs.le.trans_eq hlength))

variable {chunker : RecursiveChunker} {chunkSize : ℕ}

/-- A block that is gone through lengthens the tiling, whatever becomes of it. -/
theorem tiles_mergeStep {segments : List Segment} {cur : Cur} {block : Segment}
    (h : Tiles text 0 (flush text segments cur) block.start)
    (hblock : block.text = slice text block.start block.stop) (hle : block.start ≤ block.stop)
    (hlen : block.stop ≤ text.length) :
    Tiles text 0 (flush text (mergeStep text chunker chunkSize (segments, cur) block).1
      (mergeStep text chunker chunkSize (segments, cur) block).2) block.stop := by
  by_cases hbl : Blank block.text
  · simp only [mergeStep, chunker.chunk_of_blank _ hbl]
    have hnil : Tiles text block.start [] block.stop := ⟨hle, hblock ▸ hbl⟩
    simpa using h.append hnil
  have hsubs := chunker.consecutive _ hbl
  simp only [mergeStep]
  split
  · next hnil =>
    rw [hnil] at hsubs
    exact absurd (length_eq_zero_iff.mp hsubs.symm) fun h => hbl (by rw [h]; exact nofun)
  · exact h.append (tiles_singleton hle)
  · split
    · obtain ⟨hsegments, hst⟩ := h.of_concat
      exact hsegments.append (tiles_singleton (hst.trans hle))
    · exact h.append (tiles_singleton hle)
  · rw [hblock] at hsubs ⊢
    exact h.append (tiles_consecutive hle hlen hsubs)

theorem tiles_foldl {todo : List Segment} (state : List Segment × Cur)
    (h : Tiles text 0 (flush text state.1 state.2) a)
    (htodo : Tiles text a todo text.length) :
    Tiles text 0 (flush text (todo.foldl (mergeStep text chunker chunkSize) state).1
      (todo.foldl (mergeStep text chunker chunkSize) state).2) text.length := by
  induction todo generalizing a state with
  | nil => simpa using h.append htodo
  | cons block todo ih =>
    obtain ⟨hle, hbl, hstop, htx, hrs⟩ := htodo
    have hgap : Tiles text a [] block.start := ⟨hle, hbl⟩
    have h := h.append hgap
    rw [append_nil] at h
    exact ih _ (tiles_mergeStep h htx hstop hrs.le) hrs

/-- **The segments cover the text once**, up to white space, in order. -/
theorem buildSegments_cover (text : List Char) (chunker : RecursiveChunker) (chunkSize : ℕ)
    {scopeTable : List ScopeEntry}
    (hrange : ∀ e ∈ scopeTable, e.start ≤ e.stop ∧ e.stop ≤ text.length)
    (hnested : scopeTable.Pairwise ScopeEntry.NestedOrDisjoint) :
    (∀ s ∈ buildSegments text chunker chunkSize scopeTable, s.text = slice text s.start s.stop) ∧
    (buildSegments text chunker chunkSize scopeTable).Pairwise
      (fun s s' => s.start ≤ s'.start ∧ s.stop ≤ s'.start) ∧
    ∀ i c, text[i]? = some c → Py.isSpace c = false →
      (buildSegments text chunker chunkSize scopeTable).countP
        (fun s => s.start ≤ i ∧ i < s.stop) = 1 := by
  have hblocks := tiles_blocks (pairwise_topLevel hrange hnested)
    (fun e he => hrange e (mem_of_mem_topLevel (mem_mergeSort.mp he)))
    (fun _ _ => Nat.zero_le _) (Nat.zero_le _)
  have htiles : Tiles text 0 (buildSegments text chunker chunkSize scopeTable) text.length :=
    tiles_foldl ([], none) (tiles_nil 0) hblocks
  obtain ⟨htx, hpr, hcount⟩ := htiles.spec
  refine ⟨fun s hs => (htx s hs).2, hpr, fun i c hc hspace => ?_⟩
  obtain ⟨hi, -⟩ := List.getElem?_eq_some_iff.mp hc
  exact hcount i c hc hspace (Nat.zero_le i) hi

/-- The chunker of texts within its budget. -/
def wholeChunker : RecursiveChunker where
  chunk cs := if cs.all Py.isSpace then [] else [⟨⟨0, cs.length, cs⟩, 1⟩]
  chunk_of_blank cs h := if_pos (all_eq_true.mpr h)
  consecutive cs h := by
    rw [if_neg fun hall => h (all_eq_true.mp hall)]
    exact ⟨rfl, Nat.zero_le _, by simp [slice], rfl⟩

theorem buildSegments_cover_sample :
    (buildSegments "# setup\n\ndef f(): pass".toList wholeChunker 512
      [⟨9, 22, "function", "f", ""⟩]).countP (fun s => s.start ≤ 9 ∧ 9 < s.stop) = 1 :=
  (buildSegments_cover _ wholeChunker 512 (by decide) (pairwise_singleton _ _)).2.2 9 'd'
    (by decide) (by decide)

end ArchonSearch.Chunker
