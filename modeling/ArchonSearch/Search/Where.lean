import Mathlib.Data.List.Forall2
import ArchonSearch.Lib.Sql
import ArchonSearch.Py.Instant
import ArchonSearch.Search.Filters

/-!
# The text of the predicate of a query

`build_where` writes the predicate of a query as text: a clause for each filter, with its value
quoted, joined by `AND`. Read as SQL, that text is the conjunction of these clauses, with the
values that were given, whatever characters they have; and it is true of a row exactly if the row
is what the filters ask for (`buildWhere_means`). So the text says the same as the list of clauses
that the search goes by (`whereHolds_iff`).

The prefix of a path is escaped for `LIKE` first and quoted then. The bounds of the time are
written in UTC with a fixed width, so that they compare as text as the instants do. There is no
text for a bound which is in no year from 1 to 9999 in UTC.
-/

namespace ArchonSearch.Search.Where

open Lib Py List Option DateTime

/-! ### The filters -/

/-- A `date`. -/
structure Date where
  (year month day : ℕ)
  isDate : IsDate year month day
  year_le : year ≤ 9999

/-- `datetime.combine(value, time(0, 0, 0, 0))`. -/
def Date.startOfDay (d : Date) : Stamp where
  year := d.year
  month := d.month
  day := d.day
  hour := 0
  minute := 0
  second := 0
  microsecond := 0
  year_le := d.year_le
  month_le := d.isDate.month_le
  day_le := d.isDate.day_le_31
  hour_lt := by decide
  minute_lt := by decide
  second_lt := by decide
  microsecond_lt := by decide

/-- `datetime.combine(value, time(23, 59, 59, 999999))`. -/
def Date.endOfDay (d : Date) : Stamp where
  year := d.year
  month := d.month
  day := d.day
  hour := 23
  minute := 59
  second := 59
  microsecond := 999999
  year_le := d.year_le
  month_le := d.isDate.month_le
  day_le := d.isDate.day_le_31
  hour_lt := by decide
  minute_lt := by decide
  second_lt := by decide
  microsecond_lt := by decide

/-- `datetime | date`. -/
inductive Bound where
  | date : Date → Bound
  | datetime : DateTime → Bound

/-- `_coerce_date`. -/
def coerceDate (endOfDay : Bool) : Bound → DateTime
  | .date d =>
    { stamp := if endOfDay then d.endOfDay else d.startOfDay
      utcoffset := some 0
      hasDate := by cases endOfDay <;> exact d.isDate }
  | .datetime d => { d with utcoffset := some (d.utcoffset.getD 0) }

/-- `_coerce_and_validate_dates`: what is kept of `indexed_after` and `indexed_before`. -/
def coerceAndValidateDates (indexedAfter indexedBefore : Option Bound) :
    Except String (Option DateTime × Option DateTime) :=
  let after := indexedAfter.map (coerceDate false)
  let before := indexedBefore.map (coerceDate true)
  if after.any fun a => before.any fun b => decide (b.micros < a.micros) then
    .error "indexed_after must be <= indexed_before"
  else .ok (after, before)

def Bound.first : Bound → ℤ
  | .date d => d.startOfDay.micros
  | .datetime d => d.micros

def Bound.last : Bound → ℤ
  | .date d => d.startOfDay.micros + 86400000000 - 1
  | .datetime d => d.micros

theorem micros_coerceDate (b : Bound) :
    (coerceDate false b).micros = b.first ∧ (coerceDate true b).micros = b.last := by
  cases b with
  | date d =>
    simp only [coerceDate, Bound.first, Bound.last, micros, getD_some, Stamp.micros,
      Stamp.clock, Date.startOfDay, Date.endOfDay, Bool.false_eq_true, if_true, if_false]
    omega
  | datetime d => exact ⟨rfl, rfl⟩

/-- **What is kept of a bound is its first instant, or its last one.** -/
theorem micros_coerceAndValidateDates {indexedAfter indexedBefore : Option Bound}
    {dates : Option DateTime × Option DateTime}
    (h : coerceAndValidateDates indexedAfter indexedBefore = .ok dates) :
    dates.1.map micros = indexedAfter.map Bound.first ∧
      dates.2.map micros = indexedBefore.map Bound.last := by
  unfold coerceAndValidateDates at h
  dsimp only at h
  split_ifs at h with hord
  cases h
  rw [Option.map_map, Option.map_map]
  exact ⟨Option.map_congr fun b _ => (micros_coerceDate b).1,
    Option.map_congr fun b _ => (micros_coerceDate b).2⟩

/-- `SearchFilters`, as far as `build_where` reads it. -/
structure Filters where
  (fileType sourcePathPrefix : Option String)
  (indexedAfter indexedBefore : Option DateTime)
  language : Option String

/-! ### The text -/

/-- `_sql_quote_str`. -/
def sqlQuoteStr (s : String) : String := "'" ++ String.ofList (Sql.doubleQuotes s.toList) ++ "'"

/-- `_where_list_has_or_null`. -/
def whereListHasOrNull (col value : String) : String :=
  "(" ++ col ++ " IS NULL OR list_has(" ++ col ++ ", " ++ sqlQuoteStr value ++ "))"

def timeClause (comparison : String) : Option DateTime → Option (List String)
  | none => some []
  | some d => d.normalizeIsoUtc.map fun time => [comparison ++ sqlQuoteStr time]

def Filters.clauses (f : Filters) : Option (List String) := do
  let indexedAfter ← timeClause "indexed_at >= " f.indexedAfter
  let indexedBefore ← timeClause "indexed_at <= " f.indexedBefore
  return (f.fileType.map fun value => "file_type = " ++ sqlQuoteStr value).toList ++
    (f.sourcePathPrefix.map fun start =>
      "source_path LIKE " ++ sqlQuoteStr (String.ofList (escapeLike start.toList) ++ "%") ++
        " ESCAPE '\\'").toList ++
    indexedAfter ++ indexedBefore ++
    (f.language.map fun value => "language = " ++ sqlQuoteStr value).toList

/-- `build_where`; `none` is an `OverflowError`. -/
def buildWhere (filters : Option Filters) (scopeFilter : Option String) : Option String := do
  let ofFilters ← filters.elim (some []) Filters.clauses
  let ofScope := scopeFilter.elim [] fun scope =>
    if scope ≠ "" ∧ isWildcard scope = false then [whereListHasOrNull "scopes" scope] else []
  return " AND ".intercalate (ofFilters ++ ofScope)

/-! ### What the text says -/

def exactScope (scopeFilter : Option String) : Option String :=
  scopeFilter.filter fun scope => scope ≠ "" ∧ isWildcard scope = false

def Filters.conditions (f : Filters) : List Sql.Expr :=
  (f.fileType.map (.compare .eq "file_type")).toList ++
  (f.sourcePathPrefix.map fun start => .like "source_path"
    (String.ofList (escapeLike start.toList) ++ "%") (some '\\')).toList ++
  ((f.indexedAfter.bind normalizeIsoUtc).map (.compare .ge "indexed_at")).toList ++
  ((f.indexedBefore.bind normalizeIsoUtc).map (.compare .le "indexed_at")).toList ++
  (f.language.map (.compare .eq "language")).toList

def conditions (filters : Option Filters) (scopeFilter : Option String) : List Sql.Expr :=
  filters.elim [] Filters.conditions ++
  ((exactScope scopeFilter).map fun scope =>
    .or (.isNull "scopes") (.listHas "scopes" scope)).toList

def nullable : Option String → Sql.Value
  | none => .null
  | some s => .text s

def column (row : Row) : String → Sql.Value
  | "file_type" => nullable row.fileType
  | "source_path" => .text row.sourcePath
  | "indexed_at" => nullable row.indexedAt
  | "language" => nullable row.language
  | "scopes" => row.scopes.elim .null .list
  | _ => .null

/-- **What the filters ask** of a row that was indexed at an instant. -/
structure Admits (filters : Option Filters) (scopeFilter : Option String) (row : Row)
    (instant : ℤ) : Prop where
  fileType : ∀ f ∈ filters, ∀ value ∈ f.fileType, row.fileType = some value
  sourcePathPrefix : ∀ f ∈ filters, ∀ start ∈ f.sourcePathPrefix,
    start.toList <+: row.sourcePath.toList
  indexedAfter : ∀ f ∈ filters, ∀ d ∈ f.indexedAfter, d.micros ≤ instant
  indexedBefore : ∀ f ∈ filters, ∀ d ∈ f.indexedBefore, instant ≤ d.micros
  language : ∀ f ∈ filters, ∀ value ∈ f.language, row.language = some value
  scope : ∀ scope ∈ exactScope scopeFilter, ∀ scopes ∈ row.scopes, scope ∈ scopes

/-! ### The text is read as what it says -/

theorem toList_sqlQuoteStr (s : String) : (sqlQuoteStr s).toList = Sql.quote s.toList := by
  simp only [sqlQuoteStr, String.toList_append, String.toList_ofList]
  rfl

theorem isCondition_compare {start column : String} {op : Sql.Comparison}
    (h : Sql.Opens start.toList [.word column, .compare op]) (value : String) :
    Sql.IsCondition (start ++ sqlQuoteStr value).toList (.compare op column value) := by
  rw [String.toList_append, toList_sqlQuoteStr]
  refine ⟨_, h.quote value.toList, rfl, fun fuel rest => ?_⟩
  rw [String.ofList_toList]
  rfl

theorem isCondition_like (pattern : String) :
    Sql.IsCondition ("source_path LIKE " ++ sqlQuoteStr pattern ++ " ESCAPE '\\'").toList
      (.like "source_path" pattern (some '\\')) := by
  have hopen : Sql.Opens "source_path LIKE ".toList [.word "source_path", .keyword .like] :=
    fun out => rfl
  have hesc : Sql.Opens "ESCAPE ".toList [.keyword .escape] := fun out => rfl
  have hlex := ((hopen.quote pattern.toList).blank.append hesc).quote ['\\']
  have htx : ("source_path LIKE " ++ sqlQuoteStr pattern ++ " ESCAPE '\\'").toList =
      "source_path LIKE ".toList ++ Sql.quote pattern.toList ++ [' '] ++ "ESCAPE ".toList ++
        Sql.quote ['\\'] := by
    rw [String.toList_append, String.toList_append, toList_sqlQuoteStr, append_assoc _ [' '],
      append_assoc _ _ (Sql.quote _)]
    rfl
  rw [htx]
  refine ⟨_, hlex, rfl, fun fuel rest => ?_⟩
  rw [String.ofList_toList]
  rfl

theorem isCondition_scope (scope : String) :
    Sql.IsCondition (whereListHasOrNull "scopes" scope).toList
      (.or (.isNull "scopes") (.listHas "scopes" scope)) := by
  have hopen : Sql.Opens "(scopes IS NULL OR list_has(scopes, ".toList
      [.lparen, .word "scopes", .keyword .is, .keyword .null, .keyword .or, .keyword .listHas,
        .lparen, .word "scopes", .comma] := fun out => rfl
  have hlex := ((hopen.quote scope.toList).rparen.lexesAs.rparen).lexesAs
  have htx : (whereListHasOrNull "scopes" scope).toList =
      "(scopes IS NULL OR list_has(scopes, ".toList ++ Sql.quote scope.toList ++ [')'] ++
        [')'] := by
    simp only [whereListHasOrNull, String.toList_append, toList_sqlQuoteStr, append_assoc]
    rfl
  rw [htx]
  refine ⟨_, hlex, rfl, fun fuel rest => ?_⟩
  rw [String.ofList_toList]
  rfl

section Reading

variable {filters : Option Filters} {scopeFilter : Option String} {text : String}

/-- The clauses and the conditions of an optional filter. -/
theorem forall₂_toList {α : Type} {clause : α → String} {e : α → Sql.Expr}
    (h : ∀ a, Sql.IsCondition (clause a).toList (e a)) (o : Option α) :
    List.Forall₂ Sql.IsCondition ((o.map clause).toList.map String.toList) (o.map e).toList := by
  cases o with
  | none => exact .nil
  | some a => exact .cons (h a) .nil

theorem forall₂_timeClause {comparison : String} {op : Sql.Comparison}
    (h : Sql.Opens comparison.toList [.word "indexed_at", .compare op]) {o : Option DateTime}
    {clauses : List String} (hclaus : timeClause comparison o = some clauses) :
    List.Forall₂ Sql.IsCondition (clauses.map String.toList)
      ((o.bind normalizeIsoUtc).map (.compare op "indexed_at")).toList := by
  cases o with
  | none =>
    cases hclaus
    exact .nil
  | some d =>
    obtain ⟨time, htime, rfl⟩ := map_eq_some_iff.mp hclaus
    rw [bind_some, htime]
    exact .cons (isCondition_compare h time) .nil

/-- **Every clause is read as its condition.** -/
theorem Filters.forall₂_clauses {f : Filters} {texts : List String}
    (h : f.clauses = some texts) :
    List.Forall₂ Sql.IsCondition (texts.map String.toList) f.conditions := by
  simp only [Filters.clauses, bind_eq_bind, bind_eq_some_iff] at h
  obtain ⟨after, haft, before, hbef, h⟩ := h
  cases h
  simp only [map_append]
  refine rel_append ?_ ?_
  · refine rel_append (rel_append (rel_append ?_ ?_) ?_) ?_
    · exact forall₂_toList (isCondition_compare fun out => rfl) f.fileType
    · exact forall₂_toList (fun _ => isCondition_like _) f.sourcePathPrefix
    · exact forall₂_timeClause (fun out => rfl) haft
    · exact forall₂_timeClause (fun out => rfl) hbef
  · exact forall₂_toList (isCondition_compare fun out => rfl) f.language

theorem elim_eq_exactScope {α : Type} (clause : String → α) :
    (scopeFilter.elim [] fun scope =>
      if scope ≠ "" ∧ isWildcard scope = false then [clause scope] else []) =
      ((exactScope scopeFilter).map clause).toList := by
  cases scopeFilter with
  | none => rfl
  | some scope =>
    rw [elim_some, exactScope, filter_some]
    by_cases hexact : scope ≠ "" ∧ isWildcard scope = false
    · rw [if_pos hexact, if_pos (decide_eq_true hexact)]
      rfl
    · rw [if_neg hexact, if_neg (by simpa using hexact)]
      rfl

/-- The text is the conjunction of clauses that are read as the conditions. -/
theorem exists_clauses (h : buildWhere filters scopeFilter = some text) :
    ∃ texts : List String, text = " AND ".intercalate texts ∧
      List.Forall₂ Sql.IsCondition (texts.map String.toList) (conditions filters scopeFilter) := by
  simp only [buildWhere, bind_eq_bind, bind_eq_some_iff] at h
  obtain ⟨ofFilters, hfil, h⟩ := h
  cases h
  refine ⟨_, rfl, ?_⟩
  rw [map_append, conditions, elim_eq_exactScope]
  refine rel_append ?_ ?_
  · cases filters with
    | none =>
      cases hfil
      exact .nil
    | some f => exact Filters.forall₂_clauses hfil
  · exact forall₂_toList isCondition_scope (exactScope scopeFilter)

/-- **The text is read as the conjunction of the conditions**, if there are any, and is else
empty. -/
theorem readCondition_buildWhere (h : buildWhere filters scopeFilter = some text) :
    text = "" ∧ conditions filters scopeFilter = [] ∨
      ∃ e, Sql.readCondition text.toList = some e ∧
        e.conjuncts = conditions filters scopeFilter := by
  obtain ⟨texts, rfl, hrd⟩ := exists_clauses h
  cases texts with
  | nil => exact Or.inl ⟨rfl, forall₂_nil_left_iff.mp hrd⟩
  | cons clause texts =>
    refine Or.inr ?_
    rw [String.toList_intercalate]
    exact Sql.readCondition_join hrd (cons_ne_nil _ _)

/-- There is a text, unless a bound is out of range. -/
theorem buildWhere_eq_none_iff : buildWhere filters scopeFilter = none ↔
    ∃ f ∈ filters, ∃ d, (d ∈ f.indexedAfter ∨ d ∈ f.indexedBefore) ∧ ¬ d.InRange := by
  have htime (comparison : String) (o : Option DateTime) :
      timeClause comparison o = none ↔ ∃ d ∈ o, ¬ d.InRange := by
    cases o with
    | none => simp [timeClause]
    | some d => simp [timeClause, normalizeIsoUtc_eq_none_iff]
  have hclaus (f : Filters) : f.clauses = none ↔
      timeClause "indexed_at >= " f.indexedAfter = none ∨
        timeClause "indexed_at <= " f.indexedBefore = none := by
    unfold Filters.clauses
    cases timeClause "indexed_at >= " f.indexedAfter <;>
      cases timeClause "indexed_at <= " f.indexedBefore <;> simp
  cases filters with
  | none => simp [buildWhere]
  | some f =>
    have hbuild : buildWhere (some f) scopeFilter = none ↔ f.clauses = none := by
      cases hf : f.clauses <;> simp [buildWhere, hf]
    rw [hbuild, hclaus, htime, htime]
    simp [or_and_right, exists_or]

end Reading

/-! ### The text says what the filters ask -/

section Meaning

variable {filters : Option Filters} {scopeFilter : Option String} {row : Row}

theorem none_ne_empty : none ≠ some "" := by decide

def Filters.compiled (f : Filters) : SearchFilters where
  fileType := f.fileType
  sourcePathPrefix := f.sourcePathPrefix
  indexedAfter := f.indexedAfter.bind normalizeIsoUtc
  indexedBefore := f.indexedBefore.bind normalizeIsoUtc
  language := f.language
  glob_ne_empty := none_ne_empty

theorem likeTokens_eq (pattern : List Char) :
    Sql.likeTokens (some '\\') pattern = readLike pattern := by
  induction pattern using readLike.induct with
  | case1 c pattern ih => simp [Sql.likeTokens, readLike, ih]
  | case2 pattern ih => cases pattern <;> simp_all [Sql.likeTokens, readLike]
  | case3 pattern ih => cases pattern <;> simp_all [Sql.likeTokens, readLike]
  | case4 c pattern hslash hr hany ih =>
    cases pattern with
    | nil => simp_all [Sql.likeTokens, readLike]
    | cons d pattern =>
      have hne : '\\' ≠ c := fun h => hslash d pattern h.symm rfl
      simp_all [Sql.likeTokens, readLike]
  | case5 => rfl

variable {get : Row → Option String} {name : String}

/-- The conditions are true of a row if the clauses are, one by one. -/
theorem holds_compare_iff
    (h : column row name = nullable (get row)) (op : Sql.Comparison) (value : String) :
    (Sql.Expr.compare op name value).Holds (column row) ↔
      (get row).any (fun a => op.holds a value) = true := by
  rw [Sql.Expr.Holds, Sql.Expr.eval, h]
  cases get row <;> simp [nullable]

theorem holds_eq_iff
    (h : column row name = nullable (get row)) (value : String) :
    (Sql.Expr.compare .eq name value).Holds (column row) ↔
      (Clause.eq get value).holds row = true := by
  rw [holds_compare_iff h]
  cases hg : get row <;> simp [Clause.holds, hg, Sql.Comparison.holds]

theorem holds_like_iff (pattern : String) :
    (Sql.Expr.like "source_path" pattern (some '\\')).Holds (column row) ↔
      (Clause.sourcePathLike pattern.toList).holds row = true := by
  simp [Sql.Expr.Holds, Sql.Expr.eval, column, Clause.holds, like, likeTokens_eq]

theorem holds_scope_iff (scope : String) :
    (Sql.Expr.or (.isNull "scopes") (.listHas "scopes" scope)).Holds (column row) ↔
      (Clause.scopesHasOrNull scope).holds row = true := by
  cases hscs : row.scopes with
  | none => simp [Sql.Expr.Holds, Sql.Expr.eval, column, Clause.holds, hscs, Sql.or₃]
  | some scopes =>
    cases hm : scopes.contains scope <;>
      simp_all [Sql.Expr.Holds, Sql.Expr.eval, column, Clause.holds, Sql.or₃]

theorem forall_mem_toList_map {α : Type} {o : Option α} {e : α → Sql.Expr} {clause : α → Clause}
    (h : ∀ a, (e a).Holds (column row) ↔ (clause a).holds row = true) :
    (∀ c ∈ (o.map e).toList, c.Holds (column row)) ↔
      whereHolds (o.map clause).toList row = true := by
  cases o <;> simp [whereHolds, h]

/-- **The text says the same as the list of clauses.** -/
theorem whereHolds_iff : (∀ e ∈ conditions filters scopeFilter, e.Holds (column row)) ↔
    whereHolds (Search.buildWhere (filters.map Filters.compiled) scopeFilter) row = true := by
  rw [conditions, forall_mem_append, Search.buildWhere, whereHolds_append, elim_eq_exactScope,
    forall_mem_toList_map holds_scope_iff]
  refine and_congr_left fun _ => ?_
  cases filters with
  | none => simp [whereHolds]
  | some f =>
    rw [elim_some, Filters.conditions, map_some, elim_some]
    simp only [forall_mem_append, whereHolds_append]
    refine and_congr (and_congr (and_congr (and_congr ?_ ?_) ?_) ?_) ?_
    · exact forall_mem_toList_map (holds_eq_iff rfl)
    · refine forall_mem_toList_map fun start => ?_
      rw [holds_like_iff, String.toList_append, String.toList_ofList]
      rfl
    · exact forall_mem_toList_map (holds_compare_iff rfl .ge)
    · exact forall_mem_toList_map (holds_compare_iff rfl .le)
    · exact forall_mem_toList_map (holds_eq_iff rfl)

/-- A bound that has a text is compared with the instant. -/
theorem holds_time_iff {o : Option DateTime} {t : Stamp} (hran : ∀ d ∈ o, d.InRange)
    (htime : row.indexedAt = some (normalizeIsoUtc t)) (ht : t.HasDate) :
    (whereHolds ((o.bind normalizeIsoUtc).map Clause.indexedFrom).toList row = true ↔
        ∀ d ∈ o, d.micros ≤ t.micros) ∧
      (whereHolds ((o.bind normalizeIsoUtc).map Clause.indexedUntil).toList row = true ↔
        ∀ d ∈ o, t.micros ≤ d.micros) := by
  cases o with
  | none => simp [whereHolds]
  | some d =>
    cases hd : d.normalizeIsoUtc with
    | none => exact absurd (hran d rfl) (normalizeIsoUtc_eq_none_iff.mp hd)
    | some text =>
      obtain ⟨hfrom, hunt⟩ := normalizeIsoUtc_le_iff hd ht
      simp [whereHolds, Clause.holds, hd, htime, hfrom, hunt]

/-- **The predicate is true of what the filters ask for.** -/
theorem whereHolds_iff_admits {t : Stamp}
    (hran : ∀ f ∈ filters, ∀ d, d ∈ f.indexedAfter ∨ d ∈ f.indexedBefore → d.InRange)
    (htime : row.indexedAt = some (normalizeIsoUtc t)) (ht : t.HasDate) :
    whereHolds (Search.buildWhere (filters.map Filters.compiled) scopeFilter) row = true ↔
      Admits filters scopeFilter row t.micros := by
  have hsc : whereHolds ((exactScope scopeFilter).map Clause.scopesHasOrNull).toList row =
      true ↔ ∀ scope ∈ exactScope scopeFilter, ∀ scopes ∈ row.scopes, scope ∈ scopes := by
    rw [all_toList_map]
    refine forall₂_congr fun scope _ => ?_
    cases hscs : row.scopes <;> simp [Clause.holds, hscs]
  rw [Search.buildWhere, whereHolds_append, elim_eq_exactScope, hsc]
  cases filters with
  | none =>
    have hn {P : Filters → Prop} : ∀ f ∈ (none : Option Filters), P f := by simp
    constructor
    · exact fun h => ⟨hn, hn, hn, hn, hn, h.2⟩
    · exact fun h => ⟨all_nil, h.scope⟩
  | some f =>
    have heq (get : Row → Option String) (o : Option String) :
        whereHolds (o.map (Clause.eq get)).toList row = true ↔
          ∀ value ∈ o, get row = some value := by
      rw [all_toList_map]
      exact forall₂_congr fun value _ => decide_eq_true_iff
    have hlike : whereHolds (f.sourcePathPrefix.map fun start =>
          Clause.sourcePathLike (escapeLike start.toList ++ ['%'])).toList row = true ↔
        ∀ start ∈ f.sourcePathPrefix, start.toList <+: row.sourcePath.toList := by
      rw [all_toList_map]
      exact forall₂_congr fun start _ => like_escapeLike
    have haft := holds_time_iff (fun d hd => hran f rfl d (Or.inl hd)) htime ht
    have hbef := holds_time_iff (fun d hd => hran f rfl d (Or.inr hd)) htime ht
    rw [map_some, elim_some]
    simp only [whereHolds_append, Filters.compiled, heq, hlike, haft.1, hbef.2]
    constructor
    · rintro ⟨⟨⟨⟨⟨htype, hst⟩, hfrom⟩, hunt⟩, hlan⟩, hexact⟩
      have hs {P : Filters → Prop} (h : P f) : ∀ g ∈ some f, P g := by simpa using h
      exact ⟨hs htype, hs hst, hs hfrom, hs hunt, hs hlan, hexact⟩
    · intro h
      exact ⟨⟨⟨⟨⟨h.fileType f rfl, h.sourcePathPrefix f rfl⟩, h.indexedAfter f rfl⟩,
        h.indexedBefore f rfl⟩, h.language f rfl⟩, h.scope⟩

end Meaning

/-! ### What `build_where` means -/

/-- **The predicate means what the filters say.** The text is read as the conjunction of the
conditions with the values that were given, and is true of a row that was indexed at an instant
exactly if the row is what the filters ask for. Without conditions it is empty, and every row is.
A day is kept as its first or its last instant, and only a bound that is in no year from 1 to 9999
has no text. -/
theorem buildWhere_means (filters : Option Filters) (scopeFilter : Option String) :
    (buildWhere filters scopeFilter = none ↔
      ∃ f ∈ filters, ∃ d, (d ∈ f.indexedAfter ∨ d ∈ f.indexedBefore) ∧ ¬ d.InRange) ∧
    (∀ text, buildWhere filters scopeFilter = some text →
      text = "" ∧ conditions filters scopeFilter = [] ∧
        (∀ (row : Row) (t : Stamp), row.indexedAt = some (normalizeIsoUtc t) → t.HasDate →
          Admits filters scopeFilter row t.micros) ∨
      ∃ e, Sql.readCondition text.toList = some e ∧
        e.conjuncts = conditions filters scopeFilter ∧
        ∀ (row : Row) (t : Stamp), row.indexedAt = some (normalizeIsoUtc t) → t.HasDate →
          (e.Holds (column row) ↔ Admits filters scopeFilter row t.micros)) ∧
    ∀ indexedAfter indexedBefore dates,
      coerceAndValidateDates indexedAfter indexedBefore = .ok dates →
        dates.1.map micros = indexedAfter.map Bound.first ∧
          dates.2.map micros = indexedBefore.map Bound.last := by
  refine ⟨buildWhere_eq_none_iff, fun text h => ?_, fun _ _ _ h => micros_coerceAndValidateDates h⟩
  have hran : ∀ f ∈ filters, ∀ d, d ∈ f.indexedAfter ∨ d ∈ f.indexedBefore → d.InRange := by
    intro f hf d hd
    by_contra hout
    rw [buildWhere_eq_none_iff.mpr ⟨f, hf, d, hd, hout⟩] at h
    cases h
  rcases readCondition_buildWhere h with ⟨rfl, hn⟩ | ⟨e, he, hconj⟩
  · refine Or.inl ⟨rfl, hn, fun row t htime ht => ?_⟩
    rw [← whereHolds_iff_admits hran htime ht, ← whereHolds_iff, hn]
    exact forall_mem_nil _
  · refine Or.inr ⟨e, he, hconj, fun row t htime ht => ?_⟩
    rw [Sql.Expr.holds_iff, hconj, whereHolds_iff, whereHolds_iff_admits hran htime ht]

def sampleStamp : Stamp where
  year := 2024
  month := 2
  day := 29
  hour := 12
  minute := 0
  second := 0
  microsecond := 0
  year_le := by decide
  month_le := by decide
  day_le := by decide
  hour_lt := by decide
  minute_lt := by decide
  second_lt := by decide
  microsecond_lt := by decide

theorem hasDate_sampleStamp : sampleStamp.HasDate :=
  ⟨by decide, by decide, by decide, by decide, by decide⟩

def sampleFilters : Filters where
  fileType := some "o'md"
  sourcePathPrefix := some "/a_b%"
  indexedAfter := some ⟨sampleStamp, some 3600000000, hasDate_sampleStamp⟩
  indexedBefore := none
  language := none

def sampleRow : Row where
  docId := "doc"
  chunkId := "chunk"
  text := ""
  sourcePath := "/a_b%c"
  fileType := some "o'md"
  indexedAt := some (normalizeIsoUtc sampleStamp)

def sampleDate : Date := ⟨2024, 2, 29, hasDate_sampleStamp, by decide⟩

/-- The row is admitted, so the text is true of it. -/
theorem buildWhere_sampleFilters :
    (∃ e, Sql.readCondition ("file_type = 'o''md' AND source_path LIKE '/a\\_b\\%%' ESCAPE '\\' " ++
        "AND indexed_at >= '2024-02-29T11:00:00.000000Z'").toList = some e ∧
      e.Holds (column sampleRow)) ∧
    (coerceDate false (.date sampleDate)).micros = sampleDate.startOfDay.micros := by
  have hmeans := buildWhere_means (some sampleFilters) none
  refine ⟨?_, some.inj (hmeans.2.2 (some (.date sampleDate)) none _ rfl).1⟩
  have htx := hmeans.2.1 _ (by decide +kernel : buildWhere (some sampleFilters) none = some
    ("file_type = 'o''md' AND source_path LIKE '/a\\_b\\%%' ESCAPE '\\' " ++
      "AND indexed_at >= '2024-02-29T11:00:00.000000Z'"))
  rcases htx with ⟨hemp, -⟩ | ⟨e, he, -, hr⟩
  · exact absurd hemp (by decide +kernel)
  · refine ⟨e, he, (hr sampleRow sampleStamp rfl hasDate_sampleStamp).mpr ?_⟩
    constructor <;> rintro _ ⟨⟩ _ ⟨⟩
    · rfl
    · decide +kernel
    · decide +kernel

end ArchonSearch.Search.Where
