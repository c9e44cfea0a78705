import ArchonSearch.Lib.Mask
import Mathlib.Data.Int.Order.Basic
import Mathlib.Data.List.DropRight
import Mathlib.Order.Lattice

/-!
# Where a chunk of a document is

The enrichers look the offset of a chunk up in a sorted table of what the document has: the scopes
of a source file, and the headings and the pages of a text.

`CodeEnricher` takes the last scope by its start that ends after the offset, and as scopes are
nested or disjoint this is the innermost one (`resolveScope_innermost`). `MarkdownEnricher` takes
the last heading, and for its path the nearest heading above it of each lower level. These are its
ancestors in the outline exactly if levels nest there (`sectionPath_eq_iff`): a heading of a
sibling branch gets into the path where a level is skipped (`sibling_in_path`). The markers of page
breaks are cut out of a text, and the table of the pages is shifted by them, so that a character is
found on the page it was on (`preprocess_pages`).
-/

namespace ArchonSearch.Enrichment

open List Lib

/-- `bisect.bisect_right`, of a sorted list. -/
def bisectRight {β : Type*} [LinearOrder β] (l : List β) (x : β) : ℕ :=
  (l.takeWhile fun y => y ≤ x).length

variable {α β : Type*} [LinearOrder β] {key : α → β} {l : List α} {x : β}

theorem take_bisectRight_map (hsort : l.Pairwise fun a b => key a ≤ key b) :
    l.take (bisectRight (l.map key) x) = l.filter fun a => key a ≤ x := by
  unfold bisectRight
  induction l with
  | nil => rfl
  | cons a l ih =>
    obtain ⟨ha, hl⟩ := pairwise_cons.mp hsort
    by_cases hx : key a ≤ x
    · simp [hx, ih hl]
    · have hn : (l.filter fun b => key b ≤ x) = [] := by
        refine filter_eq_nil_iff.mpr fun b hb => ?_
        have hab := ha b hb
        simpa using (not_le.mp hx).trans_le hab
      simp [hx, hn]

theorem bisectRight_map (hsort : l.Pairwise fun a b => key a ≤ key b) :
    bisectRight (l.map key) x = l.countP fun a => key a ≤ x := by
  have hle : bisectRight (l.map key) x ≤ l.length :=
    ( takeWhile_prefix _).length_le.trans_eq (length_map key)
  rw [countP_eq_length_filter, ← take_bisectRight_map hsort, length_take, min_eq_left hle]

/-! ### The innermost scope -/

structure ScopeEntry where
  (start stop : ℕ)
  (symbolType fnName className : String)
  deriving DecidableEq

/-- `_resolve_scope`. -/
def resolveScope (offset : ℕ) (scopeTable : List ScopeEntry) : Option ScopeEntry :=
  (scopeTable.take (bisectRight (scopeTable.map ScopeEntry.start) offset)).reverse.find? fun e =>
    offset < e.stop

namespace ScopeEntry

/-- The offset lies in the scope. -/
def Contains (e : ScopeEntry) (offset : ℕ) : Prop := e.start ≤ offset ∧ offset < e.stop

instance (e : ScopeEntry) (offset : ℕ) : Decidable (e.Contains offset) :=
  inferInstanceAs (Decidable (_ ∧ _))

/-- The first scope lies within the second. -/
def Within (e e' : ScopeEntry) : Prop := e'.start ≤ e.start ∧ e.stop ≤ e'.stop

/-- Sorted by start, and by descending end. -/
def Before (e e' : ScopeEntry) : Prop := e.start < e'.start ∨ e.start = e'.start ∧ e'.stop ≤ e.stop

/-- One scope lies in the other, or they do not meet. -/
def NestedOrDisjoint (e e' : ScopeEntry) : Prop :=
  e.Within e' ∨ e'.Within e ∨ e.stop ≤ e'.start ∨ e'.stop ≤ e.start

end ScopeEntry

open ScopeEntry

/-- **The scope that is found is the innermost one**: none exactly if none contains the offset, and
else one that contains it and lies within every other that does. -/
theorem resolveScope_innermost {scopeTable : List ScopeEntry} (hsorted : scopeTable.Pairwise Before)
    (hnested : scopeTable.Pairwise NestedOrDisjoint) (offset : ℕ) :
    (resolveScope offset scopeTable = none ↔ ∀ e ∈ scopeTable, ¬e.Contains offset) ∧
      ∀ e, resolveScope offset scopeTable = some e → e ∈ scopeTable ∧ e.Contains offset ∧
        ∀ e' ∈ scopeTable, e'.Contains offset → e.Within e' := by
  have hst : scopeTable.Pairwise fun a b => a.start ≤ b.start :=
    hsorted.imp fun h => h.elim le_of_lt fun h => h.1.le
  rw [resolveScope, take_bisectRight_map hst]
  constructor
  · simp only [find?_eq_none, mem_reverse, mem_filter, decide_eq_true_eq, Contains, not_and,
      and_imp]
  intro e he
  obtain ⟨hend, after, before, hsplit, haft⟩ := find?_eq_some_iff_append.mp he
  have hm {e' : ScopeEntry} : e' ∈ after ++ e :: before ↔
      e' ∈ scopeTable ∧ e'.start ≤ offset := by
    rw [← hsplit, mem_reverse, mem_filter, decide_eq_true_eq]
  obtain ⟨hin, hle⟩ := hm.mp (mem_append_right after mem_cons_self)
  refine ⟨hin, ⟨hle, of_decide_eq_true hend⟩, fun e' he' hcon => ?_⟩
  have hpr := pairwise_reverse.mpr ((hsorted.and hnested).filter fun e => e.start ≤ offset)
  rw [hsplit] at hpr
  rcases mem_append.mp (hm.mpr ⟨he', hcon.1⟩) with hlat | hlat
  · exact absurd hcon.2 (by simpa using haft e' hlat)
  rcases mem_cons.mp hlat with rfl | hlat
  · exact ⟨le_rfl, le_rfl⟩
  · -- both contain the offset, so they are nested, and the one that starts first is wider
    obtain ⟨hord, hnest⟩ := (pairwise_cons.mp (pairwise_append.mp hpr).2.1).1 e' hlat
    have hend := of_decide_eq_true hend
    obtain ⟨hst', hend'⟩ := hcon
    unfold Before at hord
    unfold NestedOrDisjoint Within at hnest
    unfold Within
    omega

def sampleScopes : List ScopeEntry :=
  [⟨0, 90, "class", "", "Store"⟩, ⟨10, 40, "method", "get", "Store"⟩,
    ⟨10, 20, "function", "key", "Store"⟩, ⟨50, 80, "method", "put", "Store"⟩]

/-- The offset 15 is in the inner one of two scopes that start together. -/
theorem resolveScope_innermost_sampleScopes :
    resolveScope 15 sampleScopes = some ⟨10, 20, "function", "key", "Store"⟩ ∧
      ∀ e' ∈ sampleScopes, e'.Contains 15 →
        (⟨10, 20, "function", "key", "Store"⟩ : ScopeEntry).Within e' := by
  have hfnd : resolveScope 15 sampleScopes = some ⟨10, 20, "function", "key", "Store"⟩ := by
    decide
  refine ⟨hfnd, ((resolveScope_innermost ?_ ?_ 15).2 _ hfnd).2.2⟩
  · simp [sampleScopes, Before]
  · simp [sampleScopes, NestedOrDisjoint, Within]

/-! ### The path of a heading -/

structure HeadingEntry where
  offset : ℕ
  text : String
  level : ℕ
  pos : 0 < level := by decide

/-- The heading an offset is under, with the headings before it. -/
def matched (headingTable : List HeadingEntry) (startOffset : ℤ) :
    Option (List HeadingEntry × HeadingEntry) :=
  if headingTable ≠ [] ∧ 0 ≤ startOffset then
    match bisectRight (headingTable.map HeadingEntry.offset) startOffset.toNat with
    | 0 => none
    | idx + 1 => (headingTable[idx]?).map fun heading => (headingTable.take idx, heading)
  else none

/-- The headings that `enrich_chunk` puts on its stack before the matched one. -/
def nearest (level : ℕ) (before : List HeadingEntry) : List HeadingEntry :=
  (range' 1 (level - 1)).filterMap fun targetLevel =>
    before.reverse.find? fun h => h.level = targetLevel

/-- What `enrich_chunk` joins into `_section_path`. -/
def sectionPath (headingTable : List HeadingEntry) (startOffset : ℤ) : Option (List String) :=
  (matched headingTable startOffset).map fun (before, heading) =>
    (nearest heading.level before ++ [heading]).map HeadingEntry.text

/-- **The ancestors in the outline** of a heading that comes after these: those of a lower level
with no heading of their level or a lower one after them. -/
def ancestors (level : ℕ) : List HeadingEntry → List HeadingEntry
  | [] => []
  | h :: rest =>
    if h.level < level ∧ ∀ k ∈ rest, h.level < k.level then h :: ancestors level rest
    else ancestors level rest

/-- **Levels nest above a heading**: after the last heading of a lower level there is none of a
level still lower. -/
def LevelsNest (level : ℕ) : List HeadingEntry → Prop
  | [] => True
  | h :: rest => (h.level < level → (∀ k ∈ rest, k.level ≠ h.level) →
      ∀ k ∈ rest, h.level < k.level) ∧ LevelsNest level rest

variable {level : ℕ} {h : HeadingEntry} {rest : List HeadingEntry}

/-- A heading that is not of a lower level, or not the last of its level, is on no stack. -/
theorem nearest_cons_of_not (hnot : h.level < level → ∃ k ∈ rest, k.level = h.level) :
    nearest level (h :: rest) = nearest level rest := by
  refine filterMap_congr fun t ht => ?_
  rw [reverse_cons, find?_append]
  by_cases hlev : h.level = t
  · obtain ⟨k, hk, hkl⟩ := hnot (by have := mem_range'_1.mp ht; omega)
    have hs : (rest.reverse.find? fun k => k.level = t).isSome = true :=
      find?_isSome.mpr ⟨k, mem_reverse.mpr hk, by simpa using hkl.trans hlev⟩
    obtain ⟨k, hk⟩ := Option.isSome_iff_exists.mp hs
    rw [hk, Option.some_or]
  · simp [hlev]

/-- Any other is put between those of the lower levels and those of the higher ones. -/
theorem nearest_cons_of_last (hlower : h.level < level) (hl : ∀ k ∈ rest, k.level ≠ h.level) :
    ∃ l r, nearest level (h :: rest) = l ++ h :: r ∧ nearest level rest = l ++ r ∧
      ∀ k ∈ l, k ∈ rest ∧ k.level < h.level := by
  obtain ⟨lower, high, hsplit⟩ := append_of_mem (show h.level ∈ range' 1 (level - 1) from
    mem_range'_1.mpr ⟨h.pos, by omega⟩)
  have hpr := (pairwise_lt_range' : (range' 1 (level - 1)).Pairwise (· < ·))
  rw [hsplit] at hpr
  obtain ⟨-, hhig, hlt⟩ := pairwise_append.mp hpr
  have heq (t : ℕ) (ht : t ≠ h.level) :
      ((h :: rest).reverse.find? fun k => k.level = t) =
        rest.reverse.find? fun k => k.level = t := by
    simp [find?_append, ht.symm]
  have hn : (rest.reverse.find? fun k => k.level = h.level) = none :=
    find?_eq_none.mpr fun k hk => by simpa using hl k (mem_reverse.mp hk)
  have hlow : ∀ t ∈ lower, t < h.level := fun t ht => hlt t ht _ mem_cons_self
  have hhigh : ∀ t ∈ high, h.level < t := (pairwise_cons.mp hhig).1
  refine ⟨lower.filterMap fun t => rest.reverse.find? fun k => k.level = t,
    high.filterMap fun t => rest.reverse.find? fun k => k.level = t, ?_, ?_, ?_⟩
  · have hfnd : ((h :: rest).reverse.find? fun k => k.level = h.level) = some h := by
      simp [find?_append, hn]
    rw [nearest, hsplit, filterMap_append, filterMap_cons, hfnd,
      filterMap_congr fun t ht => heq t (hlow t ht).ne,
      filterMap_congr fun t ht => heq t (hhigh t ht).ne']
  · rw [nearest, hsplit, filterMap_append, filterMap_cons, hn]
  · intro k hk
    obtain ⟨t, ht, hk⟩ := mem_filterMap.mp hk
    have hlev : k.level = t := by simpa using find?_some hk
    exact ⟨mem_reverse.mp (mem_of_find?_eq_some hk), hlev ▸ hlow t ht⟩

/-- **The nearest headings are the ancestors exactly if levels nest**; there are never fewer. -/
theorem nearest_spec (level : ℕ) (before : List HeadingEntry) :
    (ancestors level before).length ≤ (nearest level before).length ∧
      (LevelsNest level before → nearest level before = ancestors level before) ∧
      ((nearest level before).length = (ancestors level before).length →
        LevelsNest level before) := by
  induction before with
  | nil => simp [ancestors, nearest, LevelsNest]
  | cons h rest ih =>
    obtain ⟨hle, heq, hnest⟩ := ih
    by_cases hla : h.level < level ∧ ∀ k ∈ rest, k.level ≠ h.level
    · obtain ⟨l, r, hcons, haft, hl⟩ := nearest_cons_of_last hla.1 hla.2
      rw [haft, length_append] at hle hnest
      by_cases habove : ∀ k ∈ rest, h.level < k.level
      · -- no heading of a lower level comes after, so it is put first
        have hnil : l = [] := eq_nil_iff_forall_not_mem.mpr fun k hk =>
          absurd (hl k hk).2 (habove k (hl k hk).1).asymm
        subst hnil
        rw [ancestors, if_pos ⟨hla.1, habove⟩, hcons, LevelsNest]
        simp only [nil_append, length_cons, length_nil] at haft hle hnest ⊢
        refine ⟨by omega, fun h' => ?_, fun h' => ⟨fun _ _ => habove, hnest (by omega)⟩⟩
        rw [← haft, heq h'.2]
      · rw [ancestors, if_neg fun h' => habove h'.2, hcons, LevelsNest, length_append, length_cons]
        refine ⟨by omega, fun h' => absurd (h'.1 hla.1 hla.2) habove, fun h' => ?_⟩
        omega
    · have hnot : h.level < level → ∃ k ∈ rest, k.level = h.level := by
        intro hlow
        by_contra hn
        exact hla ⟨hlow, fun k hk hkl => hn ⟨k, hk, hkl⟩⟩
      have habove : ¬(h.level < level ∧ ∀ k ∈ rest, h.level < k.level) := by
        rintro ⟨hlow, habove⟩
        obtain ⟨k, hk, hkl⟩ := hnot hlow
        exact absurd hkl (habove k hk).ne'
      rw [ancestors, if_neg habove, nearest_cons_of_not hnot, LevelsNest]
      refine ⟨hle, fun h' => heq h'.2, fun h' => ⟨fun hlow hn => ?_, hnest h'⟩⟩
      exact absurd ⟨hlow, hn⟩ hla

/-- **The path is that of the outline exactly if levels nest** above the matched heading. -/
theorem sectionPath_eq_iff (headingTable : List HeadingEntry) (startOffset : ℤ) :
    sectionPath headingTable startOffset =
        (matched headingTable startOffset).map (fun (before, heading) =>
          (ancestors heading.level before ++ [heading]).map HeadingEntry.text) ↔
      ∀ before heading, matched headingTable startOffset = some (before, heading) →
        LevelsNest heading.level before := by
  unfold sectionPath
  rcases matched headingTable startOffset with _ | ⟨before, heading⟩
  · simp
  · obtain ⟨-, heq, hnest⟩ := nearest_spec heading.level before
    simp only [Option.map_some, Option.some.injEq, Prod.mk.injEq, and_imp]
    constructor
    · rintro h _ _ rfl rfl
      have hlen := congrArg length h
      simp only [length_map, length_append, Nat.add_right_cancel_iff] at hlen
      exact hnest hlen
    · intro h
      rw [heq (h _ _ rfl rfl)]

/-- **A sibling in the path**: `B` is under `A`, and on the path of `D` under `C`. -/
theorem sibling_in_path :
    let headingTable : List HeadingEntry :=
      [⟨0, "A", 1, by decide⟩, ⟨5, "B", 2, by decide⟩, ⟨11, "C", 1, by decide⟩,
        ⟨16, "D", 3, by decide⟩]
    sectionPath headingTable 20 = some ["C", "B", "D"] ∧
      (matched headingTable 20).map (fun (before, heading) =>
        (ancestors heading.level before ++ [heading]).map HeadingEntry.text) = some ["C", "D"] := by
  decide

/-! ### The page of a character -/

def pageBreakMarker : List Char := "<!-- archon-search:pagebreak:v1 -->".toList

theorem pageBreakMarker_pos : 0 < pageBreakMarker.length := by decide

/-- The markers that `text.find` finds, each sought from the end of the one before. -/
def markerStarts (position skip : ℕ) (text : List Char) : List ℕ :=
  (matchEnds (wordAt pageBreakMarker) position skip text).map (· - pageBreakMarker.length)

/-- The entries of markers that start there, on the pages from this one on. -/
def numbered (page : ℕ) (starts : List ℕ) : List (ℤ × ℕ) :=
  (starts.zipIdx page).map fun (idx, page) => ((idx : ℤ), page)

/-- `_extract_page_breaks`. -/
def extractPageBreaks (text : List Char) : List (ℤ × ℕ) :=
  (if pageBreakMarker <+: text then [] else [(0, 1)]) ++ numbered 2 (markerStarts 0 0 text)

/-- The loop of `_transform_page_table` over the entries that are markers. -/
def shiftMarkers (markerLen : ℕ) : (markerIndex : ℕ) → List (ℤ × ℕ) → List (ℤ × ℕ)
  | _, [] => []
  | markerIndex, (offset, page) :: entries =>
    (offset - markerIndex * markerLen, page) :: shiftMarkers markerLen (markerIndex + 1) entries

/-- `_transform_page_table`. -/
def transformPageTable (preTable : List (ℤ × ℕ)) (markerLen : ℕ) : List (ℤ × ℕ) :=
  match preTable with
  | [] => []
  | first :: entries =>
    if first = (0, 1) then first :: shiftMarkers markerLen 0 entries
    else shiftMarkers markerLen 0 (first :: entries)

def preprocess (text : List Char) : List Char × List (ℤ × ℕ) :=
  (replaceWord [] pageBreakMarker text,
    transformPageTable (extractPageBreaks text) pageBreakMarker.length)

/-- The page that `enrich_chunk` finds for an offset. -/
def pageAt (pageTable : List (ℤ × ℕ)) (offset : ℤ) : Option ℕ :=
  if pageTable ≠ [] ∧ 0 ≤ offset then
    (pageTable[bisectRight (pageTable.map Prod.fst) offset - 1]?).map Prod.snd
  else none

/-- The characters that are in no marker, with their positions in the text. -/
def kept (position skip : ℕ) (text : List Char) : List (Char × ℕ) :=
  replaceMatches (fun cs => wordAt pageBreakMarker (cs.map Prod.fst)) [] skip (text.zipIdx position)

variable {text : List Char} {position skip : ℕ}

theorem numbered_cons (page s : ℕ) (starts : List ℕ) :
    numbered page (s :: starts) = ((s : ℤ), page) :: numbered (page + 1) starts :=
  rfl

theorem markerStarts_of_marker {a : Char} (h : pageBreakMarker <+: a :: text) :
    markerStarts position 0 (a :: text) =
      position :: markerStarts (position + 1) (pageBreakMarker.length - 1) text := by
  simp [markerStarts, matchEnds, wordAt, h]

theorem markerStarts_of_other {a : Char} (h : ¬pageBreakMarker <+: a :: text) :
    markerStarts position 0 (a :: text) = markerStarts (position + 1) 0 text := by
  simp [markerStarts, matchEnds, wordAt, h]

theorem kept_of_marker {a : Char} (h : pageBreakMarker <+: a :: text) :
    kept position 0 (a :: text) = kept (position + 1) (pageBreakMarker.length - 1) text := by
  simp [kept, replaceMatches, wordAt, h]

theorem kept_of_other {a : Char} (h : ¬pageBreakMarker <+: a :: text) :
    kept position 0 (a :: text) = (a, position) :: kept (position + 1) 0 text := by
  simp [kept, replaceMatches, wordAt, h]

/-- **The scan of a text** of which so much is gone through, with so many markers, and so many
characters kept: what is left to find and to keep comes after, and as many markers are at most at
the offset of a character as start before the character. -/
theorem scan_spec (text : List Char) (position skip cleaned found page : ℕ)
    (h : position + skip = cleaned + found * pageBreakMarker.length) :
    let starts := markerStarts position skip text
    let table := shiftMarkers pageBreakMarker.length found (numbered page starts)
    (∀ s ∈ starts, position + skip ≤ s) ∧ (∀ c ∈ kept position skip text, position + skip ≤ c.2) ∧
      (∀ e ∈ table, (cleaned : ℤ) ≤ e.1) ∧ table.Pairwise (fun e e' => e.1 ≤ e'.1) ∧
      (kept position skip text).map Prod.fst =
        replaceMatches (wordAt pageBreakMarker) [] skip text ∧
      (range' cleaned (kept position skip text).length).map
          (fun p : ℕ => table.countP fun e => e.1 ≤ (p : ℤ)) =
        (kept position skip text).map fun c => starts.countP (· < c.2) := by
  induction text generalizing position skip cleaned found page with
  | nil => simp [markerStarts, matchEnds, numbered, kept, replaceMatches, shiftMarkers]
  | cons a text ih =>
    rcases skip with _ | skip
    · have hpos := pageBreakMarker_pos
      by_cases hmar : pageBreakMarker <+: a :: text
      · obtain ⟨hsts, hk, htab, hsort, hclean, hcnt⟩ :=
          ih (position + 1) (pageBreakMarker.length - 1) cleaned (found + 1) (page + 1) (by
            rw [Nat.succ_mul]
            omega)
        have hoff : (position : ℤ) - found * pageBreakMarker.length = cleaned := by omega
        rw [markerStarts_of_marker hmar, kept_of_marker hmar, replaceMatches]
        simp only [numbered_cons, shiftMarkers, forall_mem_cons, pairwise_cons, hoff]
        refine ⟨⟨le_rfl, fun s hs => ?_⟩, fun c hc => ?_, ⟨le_rfl, htab⟩, ⟨htab, hsort⟩, ?_, ?_⟩
        · have := hsts s hs
          omega
        · have := hk c hc
          omega
        · simpa [wordAt, hmar] using hclean
        · -- the marker is before every character still to come, in the text and in the table
          refine (map_congr_left fun p hp => countP_cons_of_pos ?_).trans
            (Eq.trans ?_ (map_congr_left fun c hc => (countP_cons_of_pos ?_).symm))
          · simpa using (mem_range'_1.mp hp).1
          · simpa [Function.comp_def] using congrArg (map (· + 1)) hcnt
          · have := hk c hc
            simp
            omega
      · obtain ⟨hsts, hk, htab, hsort, hclean, hcnt⟩ :=
          ih (position + 1) 0 (cleaned + 1) found page (by omega)
        rw [markerStarts_of_other hmar, kept_of_other hmar, replaceMatches]
        refine ⟨fun s hs => ?_, ?_, fun e he => ?_, hsort, ?_, ?_⟩
        · have := hsts s hs
          omega
        · refine forall_mem_cons.mpr ⟨le_rfl, fun c hc => ?_⟩
          have := hk c hc
          omega
        · have := htab e he
          omega
        · simpa [wordAt, hmar] using hclean
        · rw [length_cons, range'_succ, map_cons, map_cons, hcnt]
          rw [countP_eq_zero.mpr fun e he => ?_, countP_eq_zero.mpr fun s hs => ?_]
          · have := hsts s hs
            simp
            omega
          · have := htab e he
            simp
            omega
    · have h := ih (position + 1) skip cleaned found page (by omega)
      rw [Nat.add_right_comm] at h
      exact h

theorem map_snd_shiftMarkers (markerLen : ℕ) (starts : List ℕ) (found page : ℕ) :
    (shiftMarkers markerLen found (numbered page starts)).map Prod.snd =
      range' page (shiftMarkers markerLen found (numbered page starts)).length := by
  induction starts generalizing found page with
  | nil => rfl
  | cons s starts ih => exact congrArg (page :: ·) (ih (found + 1) (page + 1))

/-- In a sorted table of consecutive pages, the page is told by how many of its entries are at most
at the offset. -/
theorem pageAt_eq {table : List (ℤ × ℕ)} {first p : ℕ}
    (hsort : table.Pairwise fun e e' => e.1 ≤ e'.1)
    (hpag : table.map Prod.snd = range' first table.length)
    (hpos : 0 < table.countP fun e => e.1 ≤ (p : ℤ)) :
    pageAt table p = some (first + (table.countP (fun e => e.1 ≤ (p : ℤ)) - 1)) := by
  have hle := countP_le_length (p := fun e : ℤ × ℕ => e.1 ≤ (p : ℤ)) (l := table)
  have hne : table ≠ [] := ne_nil_of_length_pos (hpos.trans_le hle)
  rw [pageAt, if_pos ⟨hne, Int.natCast_nonneg p⟩, bisectRight_map hsort, ← getElem?_map, hpag,
    getElem?_range' (by omega), Nat.one_mul]

/-- **The page of a character** is one more than the markers that start before it in the text. -/
theorem preprocess_pages (text : List Char) :
    (preprocess text).2.Pairwise (fun e e' => e.1 ≤ e'.1) ∧
      (kept 0 0 text).map Prod.fst = (preprocess text).1 ∧
      (range (preprocess text).1.length).map (fun p : ℕ => pageAt (preprocess text).2 p) =
        (kept 0 0 text).map fun c => some (1 + (markerStarts 0 0 text).countP (· < c.2)) := by
  obtain ⟨-, -, hnon, hsort, hclean, hcnt⟩ := scan_spec text 0 0 0 0 2 (by simp)
  have hpag := map_snd_shiftMarkers pageBreakMarker.length (markerStarts 0 0 text) 0 2
  have hlen : (preprocess text).1.length = (kept 0 0 text).length := by
    rw [preprocess, replaceWord, ← hclean, length_map]
  have hlook : (preprocess text).2.Pairwise (fun e e' => e.1 ≤ e'.1) ∧ ∀ p : ℕ,
      pageAt (preprocess text).2 p = some (1 + (shiftMarkers pageBreakMarker.length 0
        (numbered 2 (markerStarts 0 0 text))).countP fun e => e.1 ≤ (p : ℤ)) := by
    unfold preprocess extractPageBreaks
    by_cases hlead : pageBreakMarker <+: text
    · obtain _ | ⟨a, text⟩ := text
      · exact absurd (prefix_nil.mp hlead) (ne_nil_of_length_pos pageBreakMarker_pos)
      rw [if_pos hlead, nil_append]
      rw [markerStarts_of_marker hlead] at hsort hpag ⊢
      have hpos (starts : List ℕ) (p : ℕ) : 0 < (shiftMarkers pageBreakMarker.length 0
          (numbered 2 (0 :: starts))).countP fun e => e.1 ≤ (p : ℤ) :=
        countP_pos_iff.mpr ⟨_, mem_cons_self, by simp⟩
      refine ⟨hsort, fun p => (pageAt_eq hsort hpag (hpos _ p)).trans (congrArg some ?_)⟩
      have := hpos (markerStarts (0 + 1) (pageBreakMarker.length - 1) text) p
      omega
    · rw [if_neg hlead, singleton_append]
      have hsort' := (pairwise_cons (a := ((0, 1) : ℤ × ℕ))).mpr ⟨hnon, hsort⟩
      refine ⟨hsort', fun p => ?_⟩
      have hcnt := countP_cons_of_pos (p := fun e : ℤ × ℕ => e.1 ≤ (p : ℤ)) (a := (0, 1))
        (l := shiftMarkers pageBreakMarker.length 0 (numbered 2 (markerStarts 0 0 text))) (by simp)
      refine (pageAt_eq hsort' (congrArg (1 :: ·) hpag) (by omega)).trans ?_
      rw [hcnt, Nat.add_sub_cancel]
  refine ⟨hlook.1, hclean, ?_⟩
  rw [hlen, range_eq_range', map_congr_left fun p _ => hlook.2 p]
  simpa [Function.comp_def] using congrArg (map fun n => some (1 + n)) hcnt

end ArchonSearch.Enrichment
