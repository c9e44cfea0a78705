import ArchonSearch.Py.Str
import Mathlib.Data.List.Infix
import Mathlib.Data.List.Nodup

/-!
# The query with the names of its neighbours

`build_expanded_text` appends to a query the neighbour names it does not have yet. A name of one
word is looked for among the words of the query, any other as a substring of it.

No name is appended twice, in any case (`buildExpandedText_spec`), but that only the names whose
words the query has are left out holds exactly if, for every given name, the two tests agree with
the words (`leftOut_iff_words`). The test of a name of several words does if it finds the name just
where these words stand in the query, in whatever spacing (`agrees_several_iff`): the name may be a
fragment of longer words (`fragment_left_out`).
-/

namespace ArchonSearch.Graph

open List

variable (lower : List Char → List Char) (query : List Char)

/-- The words of a text in lower case, `text.lower().split()`. -/
def words (text : List Char) : List (List Char) :=
  ((lower text).splitOnP Py.isSpace).filter fun word => word ≠ []

/-- `already_present`. -/
def alreadyPresent (name : List Char) : Prop :=
  if (words lower name).length = 1 then lower name ∈ words lower query
  else lower name <:+: lower query

instance (name : List Char) : Decidable (alreadyPresent lower query name) := by
  unfold alreadyPresent; infer_instance

/-- The names `build_expanded_text` appends; `seen_lower` holds them in lower case. -/
def appendedNames (neighbourNames : List (List Char)) : List (List Char) :=
  neighbourNames.foldl (fun appended name =>
    if lower name ∈ appended.map lower ∨ alreadyPresent lower query name then appended
    else appended ++ [name]) []

def buildExpandedText (neighbourNames : List (List Char)) : List Char × List (List Char) :=
  if appendedNames lower query neighbourNames = [] then (query, [])
  else (query ++ ' ' :: intercalate [' '] (appendedNames lower query neighbourNames),
    appendedNames lower query neighbourNames)

variable {lower query} {name : List Char} {names : List (List Char)}

theorem appendedNames_concat : appendedNames lower query (names ++ [name]) =
    if lower name ∈ (appendedNames lower query names).map lower ∨ alreadyPresent lower query name
    then appendedNames lower query names else appendedNames lower query names ++ [name] :=
  foldl_concat ..

theorem appendedNames_sublist_nodup (names : List (List Char)) :
    appendedNames lower query names <+ names ∧
      ((appendedNames lower query names).map lower).Nodup := by
  induction names using reverseRecOn with
  | nil => exact ⟨Sublist.refl _, nodup_nil⟩
  | append_singleton names name ih =>
    obtain ⟨hsub, hnd⟩ := ih
    rw [appendedNames_concat]
    split
    · exact ⟨hsub.trans (sublist_append_left names [name]), hnd⟩
    · next h =>
      refine ⟨hsub.append (Sublist.refl _), ?_⟩
      rw [map_append, map_singleton, ← concat_eq_append]
      exact hnd.concat fun hin => h (Or.inl hin)

theorem cons_intercalate {c : Char} (hne : names ≠ []) :
    c :: intercalate [c] names = names.flatMap fun name => c :: name := by
  induction names with
  | nil => exact absurd rfl hne
  | cons name names ih =>
    rcases names with _ | ⟨next, names⟩
    · simp
    · rw [flatMap_cons, ← ih (cons_ne_nil next names), intercalate_cons_cons]
      simp

/-- A sub-list of the names, none twice in any case, is appended to the query. -/
theorem buildExpandedText_spec (names : List (List Char)) :
    (buildExpandedText lower query names).2 <+ names ∧
      ((buildExpandedText lower query names).2.map lower).Nodup ∧
      (buildExpandedText lower query names).1 =
        query ++ (buildExpandedText lower query names).2.flatMap fun name => ' ' :: name := by
  unfold buildExpandedText
  split
  · simp
  · next hne =>
    obtain ⟨hsub, hnd⟩ := appendedNames_sublist_nodup names
    exact ⟨hsub, hnd, congrArg (query ++ ·) (cons_intercalate hne)⟩

variable (lower query) in
/-- **The test of a name agrees with its words**: a name of one word of the query has no white
space around it, and any other is a substring of the query exactly if it is some of its words. -/
def Agrees (name : List Char) : Prop :=
  match words lower name with
  | [word] => word ∈ words lower query → lower name = word
  | several => lower name <:+: lower query ↔ several <:+: words lower query

/-- A word has no white space, so it is its own only word. -/
theorem words_eq_of_mem (hm : lower name ∈ words lower query) :
    words lower name = [lower name] := by
  obtain ⟨hpiece, hne⟩ := mem_filter.mp hm
  have hfr : ∀ c ∈ lower name, Py.isSpace c = false :=
    Py.forall_mem_splitOnP.mpr (fun c _ => Bool.eq_false_or_eq_true _) _ hpiece
  rw [words, splitOnP_eq_singleton hfr]
  exact filter_cons_of_pos hne

theorem agrees_iff (name : List Char) :
    Agrees lower query name ↔
      (alreadyPresent lower query name ↔ words lower name <:+: words lower query) := by
  unfold Agrees alreadyPresent
  rcases hws : words lower name with _ | ⟨word, _ | ⟨next, rest⟩⟩
  · simp
  · rw [if_pos (show [word].length = 1 from rfl), singleton_infix_iff]
    constructor
    · intro h
      constructor
      · intro hm
        rwa [singleton_inj.mp (hws.symm.trans (words_eq_of_mem hm))]
      · intro hm
        rwa [h hm]
    · intro h hm
      have hwh := words_eq_of_mem (h.mpr hm)
      exact (singleton_inj.mp (hws.symm.trans hwh)).symm
  · simp

/-- **A piece of a text stands** in it between word boundaries. -/
def Stands (piece text : List Char) : Prop :=
  ∃ before after, text = before ++ (piece ++ after) ∧
    (∀ c ∈ before.getLast?, Py.isSpace c = true) ∧ ∀ c ∈ after.head?, Py.isSpace c = true

theorem words_append_cons {c : Char} (hc : Py.isSpace c = true) (a b : List Char) :
    words id (a ++ c :: b) = words id a ++ words id b := by
  simp only [words, id, splitOnP_append_cons a b hc, filter_append]

/-- The words of a piece that stands in a text are words of it. -/
theorem Stands.words_infix {piece text : List Char} (h : Stands piece text) :
    words id piece <:+: words id text := by
  obtain ⟨before, after, rfl, hbef, haft⟩ := h
  have hleft : words id (before ++ (piece ++ after)) =
      words id before ++ words id (piece ++ after) := by
    rcases eq_nil_or_concat before with rfl | ⟨before, c, rfl⟩
    · rfl
    · have hc := hbef c (by simp)
      rw [concat_eq_append, append_assoc, singleton_append, words_append_cons hc,
        words_append_cons hc before []]
      exact congrArg (· ++ _) (append_nil _).symm
  have hright : words id (piece ++ after) = words id piece ++ words id after := by
    rcases after with _ | ⟨c, after⟩
    · rw [append_nil]
      exact (append_nil _).symm
    · have hc := haft c rfl
      exact (words_append_cons hc piece after).trans
        (congrArg (_ ++ ·) (words_append_cons hc [] after).symm)
  exact ⟨words id before, words id after, by rw [hleft, hright, append_assoc]⟩

/-- Words of a text that follow each other are those of a piece that stands in it. -/
theorem exists_stands {several : List (List Char)} {text : List Char} (hne : several ≠ [])
    (h : several <:+: words id text) : ∃ piece, Stands piece text ∧ words id piece = several := by
  obtain ⟨left, right, h⟩ := h
  rw [append_assoc] at h
  obtain ⟨l, r, hpieces, -, hr⟩ := filter_eq_append_iff.mp h.symm
  obtain ⟨m, r, rfl, hm, -⟩ := filter_eq_append_iff.mp hr
  have hmne : m ≠ [] := by
    rintro rfl
    exact hne hm.symm
  obtain ⟨before, rest, rfl, hbef, hrest⟩ : ∃ before rest, text = before ++ rest ∧
      (∀ c ∈ before.getLast?, Py.isSpace c = true) ∧ rest.splitOnP Py.isSpace = m ++ r := by
    rcases eq_or_ne l [] with rfl | hl
    · exact ⟨[], text, rfl, by simp, hpieces⟩
    · obtain ⟨a, c, b, rfl, hc, -, hb⟩ :=
        Py.exists_of_splitOnP_eq_append hl (append_ne_nil_of_left_ne_nil hmne r) hpieces
      exact ⟨a ++ [c], b, by simp, by simpa using hc, hb⟩
  obtain ⟨piece, after, rfl, haft, hpiece⟩ : ∃ piece after, rest = piece ++ after ∧
      (∀ c ∈ after.head?, Py.isSpace c = true) ∧ piece.splitOnP Py.isSpace = m := by
    rcases eq_or_ne r [] with rfl | hr
    · exact ⟨rest, [], (append_nil _).symm, by simp, hrest.trans (append_nil m)⟩
    · obtain ⟨a, c, b, rfl, hc, ha, -⟩ := Py.exists_of_splitOnP_eq_append hmne hr hrest
      exact ⟨a, c :: b, rfl, by simpa using hc, ha⟩
  exact ⟨piece, ⟨before, after, rfl, hbef, haft⟩, (congrArg _ hpiece).trans hm⟩

/-- **When the test of a name of several words agrees with its words**: the query has the name
exactly if there stand its words in it, in any spacing. -/
theorem agrees_several_iff (h : 1 < (words lower name).length) :
    Agrees lower query name ↔ (lower name <:+: lower query ↔
      ∃ piece, Stands piece (lower query) ∧ words id piece = words lower name) := by
  have hstands : words lower name <:+: words lower query ↔
      ∃ piece, Stands piece (lower query) ∧ words id piece = words lower name := by
    refine ⟨exists_stands (ne_nil_of_length_pos (Nat.zero_lt_of_lt h)), ?_⟩
    rintro ⟨piece, hstands, hws⟩
    exact hws ▸ hstands.words_infix
  rw [agrees_iff, hstands, alreadyPresent, if_neg h.ne']

/-- **Exactly the names whose words the query has, or that were appended before, are left out, if
and only if the test of every name agrees with its words.** -/
theorem leftOut_iff_words (names : List (List Char)) :
    ((buildExpandedText lower query names).2 <+ names ∧
      ((buildExpandedText lower query names).2.map lower).Nodup ∧
      (buildExpandedText lower query names).1 =
        query ++ (buildExpandedText lower query names).2.flatMap fun name => ' ' :: name) ∧
    ((∀ before name after, names = before ++ name :: after →
      (appendedNames lower query (before ++ [name]) = appendedNames lower query before ↔
        words lower name <:+: words lower query ∨
          lower name ∈ (appendedNames lower query before).map lower)) ↔
      ∀ name ∈ names, Agrees lower query name) := by
  refine ⟨buildExpandedText_spec names, ?_⟩
  have hleft (before : List (List Char)) (name : List Char) :
      appendedNames lower query (before ++ [name]) = appendedNames lower query before ↔
        lower name ∈ (appendedNames lower query before).map lower ∨
          alreadyPresent lower query name := by
    rw [appendedNames_concat]
    split
    · next h => exact iff_of_true rfl h
    · next h => exact iff_of_false (by simp) h
  simp only [hleft, agrees_iff]
  constructor
  · intro h name hnm
    -- of the names that are this one in lower case, the first was not appended before
    obtain ⟨first, hfst⟩ := Option.isSome_iff_exists.mp
      (find?_isSome (p := fun n => lower n = lower name) |>.mpr ⟨name, hnm, by simp⟩)
    obtain ⟨hsa, before, after, rfl, hbef⟩ := find?_eq_some_iff_append.mp hfst
    have hsa : lower first = lower name := of_decide_eq_true hsa
    have hw : lower first ∉ (appendedNames lower query before).map lower := by
      intro hin
      obtain ⟨other, hoth, heq⟩ := mem_map.mp hin
      have hne := hbef other ((appendedNames_sublist_nodup before).1.subset hoth)
      simp [heq, hsa] at hne
    have hws : words lower first = words lower name := by rw [words, words, hsa]
    have hpres : alreadyPresent lower query first = alreadyPresent lower query name := by
      rw [alreadyPresent, alreadyPresent, hws, hsa]
    have hiff := h before first after rfl
    rwa [or_comm, or_iff_left hw, or_iff_left hw, hpres, hws] at hiff
  · rintro h before name after rfl
    rw [h name (mem_append_right before mem_cons_self), or_comm]

/-- **A fragment of longer words is left out.** -/
theorem fragment_left_out :
    let lower : List Char → List Char := map Char.toLower
    let query := "decode reviewer".toList
    let name := "Code review".toList
    buildExpandedText lower query [name] = (query, []) ∧
      ¬words lower name <:+: words lower query := by
  decide +kernel

end ArchonSearch.Graph
