import Mathlib.Data.Rat.Init
import ArchonSearch.Py.Fnmatch

/-!
# The filters of a search

A search is narrowed by the fields of `SearchFilters`, by a scope and by the ACL of each
chunk. `build_where` compiles the fields and an exact scope into the predicate of a query;
the glob over the path, a scope that ends in `*` and the ACL are applied afterwards to what
was retrieved.

The predicate is kept as the list of its clauses, of which the SQL text is the conjunction. The
prefix of a path is the only one whose value is rewritten, into a pattern of `LIKE` with its
metacharacters escaped; `like_escapeLike` says that it is read back as the prefix it was. What each
filter asks of a result is `SearchFilters.Admits`, and a row that passes the predicate and the glob
is admitted (`admits_of_buildWhere`).

The times are the fixed-width texts of `normalize_iso_utc`, which are stored and compared
as texts. The columns that no filter and no ranking reads are left out.
-/

namespace ArchonSearch.Search

open Lib List Option

structure Row where
  (docId chunkId text sourcePath : String)
  fileType : Option String := none
  language : Option String := none
  indexedAt : Option String := none
  acl : Option (List String) := none
  scopes : Option (List String) := none

/-- `SearchFilters`, as it is after validation. -/
structure SearchFilters where
  fileType : Option String := none
  sourcePathPrefix : Option String := none
  sourcePathGlob : Option String := none
  indexedAfter : Option String := none
  indexedBefore : Option String := none
  language : Option String := none
  glob_ne_empty : sourcePathGlob ≠ some "" := by decide

/-! ### The predicate of a query -/

/-- A clause of a `WHERE`. -/
inductive Clause where
  /-- `column = value`. -/
  | eq (column : Row → Option String) (value : String)
  /-- `source_path LIKE pattern ESCAPE '\'`. -/
  | sourcePathLike (pattern : List Char)
  /-- `indexed_at >= value`. -/
  | indexedFrom (value : String)
  /-- `indexed_at <= value`. -/
  | indexedUntil (value : String)
  /-- `(scopes IS NULL OR list_has(scopes, value))`. -/
  | scopesHasOrNull (value : String)

/-- The tokens of a `LIKE` pattern, with `\` as the escape character. -/
def readLike : List Char → List Wildcard.Token
  | '\\' :: c :: pattern => .literal c :: readLike pattern
  | '%' :: pattern => .run :: readLike pattern
  | '_' :: pattern => .any :: readLike pattern
  | c :: pattern => .literal c :: readLike pattern
  | [] => []

/-- `value LIKE pattern ESCAPE '\'`. -/
def like (value pattern : List Char) : Bool := Wildcard.Matches (readLike pattern) value

def Clause.holds (row : Row) : Clause → Bool
  | eq column value => column row = some value
  | sourcePathLike pattern => like row.sourcePath.toList pattern
  | indexedFrom value => row.indexedAt.any fun time => value ≤ time
  | indexedUntil value => row.indexedAt.any fun time => time ≤ value
  | scopesHasOrNull value => row.scopes.all fun scopes => scopes.contains value

/-- `s.replace(c, "\\" + c)`. -/
def escapeChar (c : Char) (s : List Char) : List Char :=
  s.flatMap fun d => if d = c then ['\\', c] else [d]

/-- `escape_like`. -/
def escapeLike (s : List Char) : List Char := escapeChar '_' (escapeChar '%' (escapeChar '\\' s))

/-- `scope_filter.endswith("*")`. -/
def isWildcard (scope : String) : Bool := scope.toList.getLast? = some '*'

/-- `build_where`. -/
def buildWhere (filters : Option SearchFilters) (scopeFilter : Option String) : List Clause :=
  (filters.elim [] fun filters =>
    (filters.fileType.map (Clause.eq Row.fileType)).toList ++
    (filters.sourcePathPrefix.map fun start =>
      Clause.sourcePathLike (escapeLike start.toList ++ ['%'])).toList ++
    (filters.indexedAfter.map Clause.indexedFrom).toList ++
    (filters.indexedBefore.map Clause.indexedUntil).toList ++
    (filters.language.map (Clause.eq Row.language)).toList) ++
  scopeFilter.elim [] fun scope =>
    if scope ≠ "" ∧ isWildcard scope = false then [.scopesHasOrNull scope] else []

def whereHolds (clauses : List Clause) (row : Row) : Bool := clauses.all (Clause.holds row)

/-! ### The filters that are applied afterwards -/

/-- `is_acl_allowed`. -/
def isAclAllowed (acl : Option (List String)) (ns : String) : Bool :=
  match acl with
  | none => true
  | some names => ns ≠ "" && names.contains ns

/-- `apply_acl_filter`. -/
def applyAclFilter {α : Type} (items : List α) (getAcl : α → Option (List String))
    (ns : String) : List α × Bool :=
  (items.filter fun item => isAclAllowed (getAcl item) ns,
    items.any fun item => !isAclAllowed (getAcl item) ns)

/-- `_apply_scope_wildcard_filter`, for the scopes of one candidate. -/
def passesScopeWildcard (scopeFilter : String) (scopes : Option (List String)) : Bool :=
  match scopes with
  | none | some [] => true
  | some scopes => scopes.any fun scope => scopeFilter.toList.dropLast.isPrefixOf scope.toList

/-- `fnmatch.fnmatchcase(source_path, filters.source_path_glob)`, where a glob is given. -/
def passesGlob (filters : Option SearchFilters) (sourcePath : String) : Bool :=
  (filters.bind SearchFilters.sourcePathGlob).all fun glob =>
    glob = "" || Py.fnmatchcase sourcePath glob

/-! ### What the filters ask for -/

/-- `SearchResult`. -/
structure SearchResult where
  (docId chunkId text : String)
  score : ℚ
  (sourcePath fileType language indexedAt : String)
  acl : Option (List String)
  collection : String
  rerankerScore : Option ℚ

structure SearchFilters.Admits (filters : SearchFilters) (r : SearchResult) : Prop where
  fileType : ∀ value ∈ filters.fileType, r.fileType = value
  sourcePathPrefix : ∀ start ∈ filters.sourcePathPrefix, start.toList <+: r.sourcePath.toList
  sourcePathGlob : ∀ glob ∈ filters.sourcePathGlob, Py.fnmatchcase r.sourcePath glob = true
  indexedAfter : ∀ time ∈ filters.indexedAfter, time ≤ r.indexedAt
  indexedBefore : ∀ time ∈ filters.indexedBefore, r.indexedAt ≤ time
  language : ∀ value ∈ filters.language, r.language = value

def AdmitsScope (scopeFilter : Option String) (scopes : Option (List String)) : Prop :=
  ∀ scope ∈ scopeFilter, scope = "" ∨ scopes.getD [] = [] ∨
    if isWildcard scope = true then
      ∃ s ∈ scopes.getD [], scope.toList.dropLast <+: s.toList
    else scope ∈ scopes.getD []

structure SearchResult.IsOf (r : SearchResult) (row : Row) : Prop where
  docId : r.docId = row.docId
  chunkId : r.chunkId = row.chunkId
  text : r.text = row.text
  sourcePath : r.sourcePath = row.sourcePath
  fileType : r.fileType = row.fileType.getD ""
  language : r.language = row.language.getD ""
  indexedAt : r.indexedAt = row.indexedAt.getD ""
  acl : r.acl = row.acl

/-! ### The predicate says what the filters ask for -/

/-- A character that stands for itself in a pattern, or is escaped. -/
theorem readLike_cons (c : Char) (pattern : List Char) :
    readLike ((if c = '\\' ∨ c = '%' ∨ c = '_' then ['\\', c] else [c]) ++ pattern) =
      .literal c :: readLike pattern := by
  split_ifs with h
  · rfl
  · obtain ⟨hslash, hr, hany⟩ := (not_or.mp h).imp_right not_or.mp
    conv_lhs => unfold readLike
    split <;> simp_all

theorem escapeLike_cons (c : Char) (s : List Char) :
    escapeLike (c :: s) =
      (if c = '\\' ∨ c = '%' ∨ c = '_' then ['\\', c] else [c]) ++ escapeLike s := by
  by_cases hslash : c = '\\'
  · subst hslash
    simp [escapeLike, escapeChar]
  by_cases hr : c = '%'
  · subst hr
    simp [escapeLike, escapeChar]
  by_cases hany : c = '_'
  · subst hany
    simp [escapeLike, escapeChar]
  · simp [escapeLike, escapeChar, hslash, hr, hany]

theorem readLike_escapeLike (s pattern : List Char) :
    readLike (escapeLike s ++ pattern) = s.map .literal ++ readLike pattern := by
  induction s with
  | nil => rfl
  | cons c s ih =>
    rw [escapeLike_cons, append_assoc, readLike_cons, ih]
    rfl

/-- **The pattern of a prefix matches what begins with it.** -/
theorem like_escapeLike {start value : List Char} :
    like value (escapeLike start ++ ['%']) = true ↔ start <+: value := by
  rw [like, readLike_escapeLike]
  exact Wildcard.matches_literals_append_run

variable {row : Row}

theorem all_toList_map {α : Type} {o : Option α} {clause : α → Clause} :
    whereHolds (o.map clause).toList row = true ↔ ∀ value ∈ o, (clause value).holds row = true := by
  cases o <;> simp [whereHolds]

theorem whereHolds_append {clauses clauses' : List Clause} :
    whereHolds (clauses ++ clauses') row = true ↔
      whereHolds clauses row = true ∧ whereHolds clauses' row = true := by
  simp [whereHolds]

variable {filters : Option SearchFilters}

/-- **A row that passes the predicate and the glob is admitted.** -/
theorem admits_of_buildWhere {scopeFilter : Option String} {r : SearchResult}
    (hwhere : whereHolds (buildWhere filters scopeFilter) row = true)
    (hglob : passesGlob filters row.sourcePath = true) (hr : r.IsOf row) :
    ∀ f ∈ filters, f.Admits r := by
  rintro f rfl
  have h := (whereHolds_append.mp hwhere).1
  simp only [elim_some, whereHolds_append, all_toList_map] at h
  obtain ⟨⟨⟨⟨htype, hsts⟩, haft⟩, hbef⟩, hlan⟩ := h
  have htime {P : String → Bool} (h : row.indexedAt.any P = true) :
      P r.indexedAt = true := by
    obtain ⟨time, htime, hP⟩ := (Option.any_eq_true _ _).mp h
    rw [hr.indexedAt, htime]
    exact hP
  exact
    { fileType := fun value hval => by
        rw [hr.fileType, of_decide_eq_true (htype value hval)]
        rfl
      sourcePathPrefix := fun start hst => by
        rw [hr.sourcePath]
        exact like_escapeLike.mp (hsts start hst)
      sourcePathGlob := fun glob hm => by
        have hne : glob ≠ "" := fun h => f.glob_ne_empty (h ▸ hm)
        rw [hr.sourcePath]
        simpa [passesGlob, mem_def.mp hm, hne] using hglob
      indexedAfter := fun time hm => of_decide_eq_true (htime (haft time hm))
      indexedBefore := fun time hm => of_decide_eq_true (htime (hbef time hm))
      language := fun value hval => by
        rw [hr.language, of_decide_eq_true (hlan value hval)]
        rfl }

variable {scope : String}

theorem admitsScope_of_buildWhere
    (hwild : isWildcard scope = false)
    (hwhere : whereHolds (buildWhere filters (some scope)) row = true) :
    AdmitsScope (some scope) row.scopes := by
  intro s hs
  cases hs
  have h := (whereHolds_append.mp hwhere).2
  by_cases hne : scope = ""
  · exact Or.inl hne
  rw [elim_some, if_pos ⟨hne, hwild⟩] at h
  cases hscs : row.scopes with
  | none => exact Or.inr (Or.inl rfl)
  | some scopes =>
    refine Or.inr (Or.inr ?_)
    simpa [whereHolds, Clause.holds, hscs, hwild] using h

theorem admitsScope_of_passes {scopes : Option (List String)}
    (hwild : isWildcard scope = true) (h : passesScopeWildcard scope scopes = true) :
    AdmitsScope (some scope) scopes := by
  intro s hs
  cases hs
  rcases scopes with _ | _ | ⟨s, scopes⟩
  · exact Or.inr (Or.inl rfl)
  · exact Or.inr (Or.inl rfl)
  · refine Or.inr (Or.inr ?_)
    rw [if_pos hwild]
    obtain ⟨t, ht, hsts⟩ := List.any_eq_true.mp h
    exact ⟨t, ht, isPrefixOf_iff_prefix.mp hsts⟩

end ArchonSearch.Search
