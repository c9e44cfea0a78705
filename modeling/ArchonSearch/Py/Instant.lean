import ArchonSearch.Py.Iso

/-!
# Instants

A date and a time of day are an instant, a number of microseconds from the day before the first one
of the calendar (`Stamp.micros`). The days are counted by `_ymd2ord`, and `_ord2ymd` is its inverse
(`toOrdinal_fromOrdinal`). Dates compare as their fields do, the year first, because no month and
no year is longer than what is before the next one (`Stamp.micros_lt_iff`).

A `datetime` has an offset, or is taken to be in UTC. `normalize_iso_utc` subtracts the offset, and
writes the instant that it is (`DateTime.micros_toUtc`), unless that is before the year 1 or after
9999.
-/

namespace ArchonSearch.Py

open List Option

/-! ### Days of months and years -/

theorem daysBeforeMonth_succ (year month : ℕ) :
    daysBeforeMonth year (month + 1) = daysBeforeMonth year month + daysInMonth year month := by
  simp [daysBeforeMonth, range_succ]

theorem daysBeforeMonth_mono (year : ℕ) : Monotone (daysBeforeMonth year) :=
  monotone_nat_of_le_succ fun month => by
    rw [daysBeforeMonth_succ]
    exact Nat.le_add_right _ _

variable {month : ℕ}

theorem daysBeforeMonth_add_le (year : ℕ) {month' : ℕ} (h : month < month') :
    daysBeforeMonth year month + daysInMonth year month ≤ daysBeforeMonth year month' := by
  rw [← daysBeforeMonth_succ]
  exact daysBeforeMonth_mono year h

variable {year : ℕ} {year' : ℕ}

theorem daysInMonth_congr (h : isLeap year = isLeap year') :
    daysInMonth year = daysInMonth year' := by
  funext month
  simp [daysInMonth, h]

theorem daysBeforeMonth_congr (h : isLeap year = isLeap year') :
    daysBeforeMonth year = daysBeforeMonth year' := by
  funext month
  simp [daysBeforeMonth, daysInMonth_congr h]

def yearLike (leap : Bool) : ℕ := if leap then 2000 else 2001

theorem isLeap_yearLike (leap : Bool) : isLeap (yearLike leap) = leap := by
  cases leap <;> rfl

theorem daysBeforeMonth_thirteen (year : ℕ) :
    daysBeforeMonth year 13 = if isLeap year then 366 else 365 := by
  rw [daysBeforeMonth_congr (isLeap_yearLike (isLeap year)).symm]
  cases isLeap year <;> rfl

theorem daysBeforeYear_succ (h : 1 ≤ year) :
    daysBeforeYear (year + 1) = daysBeforeYear year + daysBeforeMonth year 13 := by
  obtain ⟨n, rfl⟩ := Nat.exists_eq_add_of_le' h
  have hcent : n / 100 ≤ n / 4 := Nat.div_le_div_left (by decide) (by decide)
  simp only [daysBeforeMonth_thirteen, daysBeforeYear, Nat.add_sub_cancel, Nat.succ_div,
    Nat.dvd_iff_mod_eq_zero, isLeap, Bool.and_eq_true, Bool.or_eq_true, decide_eq_true_eq]
  by_cases hfour : (n + 1) % 4 = 0
  · by_cases hcen : (n + 1) % 100 = 0
    · by_cases hcyc : (n + 1) % 400 = 0 <;> simp [hfour, hcen, hcyc] <;> omega
    · have hcyc : (n + 1) % 400 ≠ 0 := by omega
      simp [hfour, hcen, hcyc]
      omega
  · have hcen : (n + 1) % 100 ≠ 0 := by omega
    have hcyc : (n + 1) % 400 ≠ 0 := by omega
    simp [hfour, hcen, hcyc]
    omega

theorem daysBeforeYear_mono : Monotone daysBeforeYear :=
  monotone_nat_of_le_succ fun year => by
    rcases Nat.eq_zero_or_pos year with rfl | h
    · exact Nat.zero_le _
    · rw [daysBeforeYear_succ h]
      exact Nat.le_add_right _ _

/-! ### Dates and their numbers -/

structure IsDate (year month day : ℕ) : Prop where
  one_le_year : 1 ≤ year
  one_le_month : 1 ≤ month
  month_le : month ≤ 12
  one_le_day : 1 ≤ day
  day_le : day ≤ daysInMonth year month

theorem IsDate.toOrdinal_le {day : ℕ} (h : IsDate year month day) :
    toOrdinal year month day ≤ daysBeforeYear (year + 1) := by
  have hmon : daysBeforeMonth year month + daysInMonth year month ≤ daysBeforeMonth year 13 :=
    daysBeforeMonth_add_le year (Nat.lt_succ_of_le h.month_le)
  have hday := h.day_le
  rw [daysBeforeYear_succ h.one_le_year, toOrdinal]
  omega

theorem toOrdinal_lt_of_year_lt {day month' day' : ℕ}
    (h : IsDate year month day) (h' : IsDate year' month' day') (hlt : year < year') :
    toOrdinal year month day < toOrdinal year' month' day' := by
  have hyear : daysBeforeYear (year + 1) ≤ daysBeforeYear year' := daysBeforeYear_mono hlt
  have hle := h.toOrdinal_le
  have hday := h'.one_le_day
  unfold toOrdinal at hle ⊢
  omega

theorem toOrdinal_lt_of_month_lt {day month' day' : ℕ}
    (h : IsDate year month day) (h' : IsDate year month' day') (hlt : month < month') :
    toOrdinal year month day < toOrdinal year month' day' := by
  have hmon := daysBeforeMonth_add_le year hlt
  have hle := h.day_le
  have hday := h'.one_le_day
  unfold toOrdinal
  omega

/-- The month of a day of the year is found by a guess, which is at most one too great. -/
theorem month_of_day : ∀ leap : Bool, ∀ n < 365,
    let guess := (n + 50) / 32
    let month := if n < daysBeforeMonth (yearLike leap) guess then guess - 1 else guess
    1 ≤ month ∧ month ≤ 12 ∧ daysBeforeMonth (yearLike leap) month ≤ n ∧
      n + 1 - daysBeforeMonth (yearLike leap) month ≤ daysInMonth (yearLike leap) month := by
  decide +kernel

/-- The year begins behind so many cycles of 400, 100 and 4 years, and so many years. -/
theorem daysBeforeYear_cycles (n400 : ℕ) {n100 n4 n1 : ℕ} (h100 : n100 ≤ 3) (h4 : n4 ≤ 24)
    (h1 : n1 ≤ 3) :
    daysBeforeYear (n400 * 400 + n100 * 100 + n4 * 4 + n1 + 1) =
      n400 * 146097 + n100 * 36524 + n4 * 1461 + n1 * 365 := by
  unfold daysBeforeYear
  omega

/-- The last day of a leap year is found by itself. -/
theorem toOrdinal_last (h : 1 ≤ year) (hleap : isLeap year = true) :
    toOrdinal year 12 31 = daysBeforeYear (year + 1) ∧ IsDate year 12 31 := by
  have hdays : daysInMonth year 12 = 31 := by
    rfl
  have hmon : daysBeforeMonth year 12 = 335 := by
    rw [daysBeforeMonth_congr (hleap.trans (isLeap_yearLike true).symm)]
    rfl
  have hyear : daysBeforeMonth year 13 = 366 := by
    rw [daysBeforeMonth_thirteen, if_pos hleap]
  refine ⟨?_, h, by decide, le_rfl, by decide, hdays.ge⟩
  rw [daysBeforeYear_succ h, hyear, toOrdinal, hmon]

/-- **`_ord2ymd` is the inverse of `_ymd2ord`.** -/
theorem toOrdinal_fromOrdinal {n : ℕ} (hn : 1 ≤ n) :
    toOrdinal (fromOrdinal n).1 (fromOrdinal n).2.1 (fromOrdinal n).2.2 = n ∧
      IsDate (fromOrdinal n).1 (fromOrdinal n).2.1 (fromOrdinal n).2.2 := by
  unfold fromOrdinal
  dsimp only
  -- the days behind each of the cycles
  obtain ⟨n400, hn400⟩ : ∃ n400, (n - 1) / 146097 = n400 := ⟨_, rfl⟩
  obtain ⟨r400, hr400⟩ : ∃ r, (n - 1) % 146097 = r := ⟨_, rfl⟩
  rw [hn400, hr400]
  obtain ⟨n100, hn100⟩ : ∃ n100, r400 / 36524 = n100 := ⟨_, rfl⟩
  obtain ⟨r100, hr100⟩ : ∃ r, r400 % 36524 = r := ⟨_, rfl⟩
  rw [hn100, hr100]
  obtain ⟨n4, hn4⟩ : ∃ n4, r100 / 1461 = n4 := ⟨_, rfl⟩
  obtain ⟨r4, hr4⟩ : ∃ r, r100 % 1461 = r := ⟨_, rfl⟩
  rw [hn4, hr4]
  obtain ⟨n1, hn1⟩ : ∃ n1, r4 / 365 = n1 := ⟨_, rfl⟩
  obtain ⟨day, hday⟩ : ∃ r, r4 % 365 = r := ⟨_, rfl⟩
  rw [hn1, hday]
  by_cases hl : n1 = 4 ∨ n100 = 4
  · rw [if_pos hl]
    dsimp only
    -- it is the last day of a leap year
    obtain ⟨a, b, c, hb, hc, hyear, hn', hcycle⟩ : ∃ a b c, b ≤ 3 ∧ c ≤ 24 ∧
        n400 * 400 + 1 + n100 * 100 + n4 * 4 + n1 - 1 = a * 400 + b * 100 + c * 4 + 0 ∧
        n = a * 146097 + b * 36524 + c * 1461 + 0 * 365 ∧ (1 ≤ c ∨ b = 0 ∧ 1 ≤ a) := by
      by_cases hfour : n100 = 4
      · have hz : r400 = 146096 ∧ r100 = 0 := by omega
        obtain ⟨rfl, rfl⟩ := hz
        obtain rfl : 0 = n4 := hn4
        obtain rfl : 0 = r4 := hr4
        obtain rfl : 0 = n1 := hn1
        subst hfour
        exact ⟨n400 + 1, 0, 0, by decide, by decide, by omega, by omega, Or.inr ⟨rfl, by omega⟩⟩
      · have hone : n1 = 4 := hl.resolve_right hfour
        exact ⟨n400, n100, n4 + 1, by omega, by omega, by omega, by omega, Or.inl (by omega)⟩
    have hleap : isLeap (a * 400 + b * 100 + c * 4 + 0) = true := by
      simp only [isLeap, Bool.and_eq_true, Bool.or_eq_true, decide_eq_true_eq]
      omega
    rw [hyear, hn', ← daysBeforeYear_cycles a hb hc (Nat.zero_le 3)]
    exact toOrdinal_last (by omega) hleap
  · rw [if_neg hl]
    dsimp only
    obtain ⟨h1, h100⟩ := not_or.mp hl
    have hyear : daysBeforeYear (n400 * 400 + 1 + n100 * 100 + n4 * 4 + n1) + day + 1 = n := by
      have hcyc := daysBeforeYear_cycles n400 (by omega : n100 ≤ 3) (by omega : n4 ≤ 24)
        (by omega : n1 ≤ 3)
      have hone : n400 * 400 + 1 + n100 * 100 + n4 * 4 + n1 =
          n400 * 400 + n100 * 100 + n4 * 4 + n1 + 1 := by omega
      have hfour := Nat.div_add_mod r4 365
      have hcen := Nat.div_add_mod r100 1461
      have hcycle := Nat.div_add_mod r400 36524
      have hall := Nat.div_add_mod (n - 1) 146097
      rw [hn400, hr400] at hall
      rw [hn100, hr100] at hcycle
      rw [hn4, hr4] at hcen
      rw [hn1, hday] at hfour
      rw [hone, hcyc]
      clear hn400 hr400 hn100 hr100 hn4 hr4 hn1 hday hl h1 h100 hcyc hone
      omega
    have hpos : 1 ≤ n400 * 400 + 1 + n100 * 100 + n4 * 4 + n1 := by omega
    have hday' : day < 365 := by omega
    clear hn400 hr400 hn100 hr100 hn4 hr4 hn1 hday hl h1 h100
    revert hyear hpos
    generalize n400 * 400 + 1 + n100 * 100 + n4 * 4 + n1 = year
    intro hyear hpos
    have hmon := month_of_day (isLeap year) day hday'
    rw [daysBeforeMonth_congr (isLeap_yearLike (isLeap year)),
      daysInMonth_congr (isLeap_yearLike (isLeap year))] at hmon
    dsimp only at hmon
    revert hmon
    generalize (if day < daysBeforeMonth year ((day + 50) / 32) then (day + 50) / 32 - 1
      else (day + 50) / 32) = month
    rintro ⟨hone, htwel, hle, hin⟩
    refine ⟨?_, hpos, hone, htwel, by omega, by omega⟩
    unfold toOrdinal
    omega

def maxOrdinal : ℕ := 3652059

/-- A day up to the last one is of a year up to 9999. -/
theorem year_le_of_toOrdinal_le {day : ℕ} (h : IsDate year month day)
    (hle : toOrdinal year month day ≤ maxOrdinal) : year ≤ 9999 := by
  by_contra hlt
  have hyear : daysBeforeYear 10000 ≤ daysBeforeYear year := daysBeforeYear_mono (by omega)
  have hcnt : daysBeforeYear 10000 = maxOrdinal := by decide
  have hday := h.one_le_day
  unfold toOrdinal at hle
  omega

theorem IsDate.day_le_31 {day : ℕ} (h : IsDate year month day) : day ≤ 31 := by
  have hall : ∀ leap : Bool, ∀ m < 13, daysInMonth (yearLike leap) m ≤ 31 := by decide
  have hmon := hall (isLeap year) month (Nat.lt_succ_of_le h.month_le)
  rw [daysInMonth_congr (isLeap_yearLike (isLeap year))] at hmon
  exact h.day_le.trans hmon

/-! ### Instants -/

namespace Stamp

/-- The date exists. -/
def HasDate (t : Stamp) : Prop := IsDate t.year t.month t.day

def clock (t : Stamp) : ℕ :=
  ((t.hour * 60 + t.minute) * 60 + t.second) * 1000000 + t.microsecond

def micros (t : Stamp) : ℤ := toOrdinal t.year t.month t.day * 86400000000 + t.clock

theorem clock_lt (t : Stamp) : t.clock < 86400000000 := by
  have hhour := t.hour_lt
  have hmin := t.minute_lt
  have hsec := t.second_lt
  have hmic := t.microsecond_lt
  unfold clock
  omega

theorem lt_iff {t u : Stamp} : t < u ↔ t.year < u.year ∨ t.year = u.year ∧
    (t.month < u.month ∨ t.month = u.month ∧ (t.day < u.day ∨ t.day = u.day ∧
      t.clock < u.clock)) := by
  have hmin := t.minute_lt
  have hsec := t.second_lt
  have hmic := t.microsecond_lt
  have hmin' := u.minute_lt
  have hsec' := u.second_lt
  have hmic' := u.microsecond_lt
  have hck : t.clock < u.clock ↔ t.hour < u.hour ∨ t.hour = u.hour ∧
      (t.minute < u.minute ∨ t.minute = u.minute ∧ (t.second < u.second ∨
        t.second = u.second ∧ t.microsecond < u.microsecond)) := by
    unfold clock
    omega
  have hflds : t < u ↔ t.fields < u.fields := Iff.rfl
  rw [hflds, hck, fields, fields]
  simp [cons_lt_cons_iff]

theorem micros_lt_of_lt {t u : Stamp} (ht : t.HasDate) (hu : u.HasDate) (h : t < u) :
    t.micros < u.micros := by
  have hck := t.clock_lt
  have hday (hlt : toOrdinal t.year t.month t.day < toOrdinal u.year u.month u.day) :
      t.micros < u.micros := by
    unfold micros
    omega
  rcases lt_iff.mp h with hyear | ⟨hyear, hmon | ⟨hmon, hlt | ⟨hlt, h⟩⟩⟩
  · exact hday (toOrdinal_lt_of_year_lt ht hu hyear)
  · refine hday ?_
    rw [HasDate, ← hyear] at hu
    rw [← hyear]
    exact toOrdinal_lt_of_month_lt ht hu hmon
  · refine hday ?_
    rw [hyear, hmon]
    exact Nat.add_lt_add_left hlt _
  · unfold micros
    rw [hyear, hmon, hlt]
    omega

/-- **Points in time compare as the instants that they are.** -/
theorem micros_lt_iff {t u : Stamp} (ht : t.HasDate) (hu : u.HasDate) :
    t.micros < u.micros ↔ t < u := by
  refine ⟨fun h => ?_, micros_lt_of_lt ht hu⟩
  rcases lt_trichotomy t u with hlt | rfl | hlt
  · exact hlt
  · exact absurd h (lt_irrefl _)
  · exact absurd h (micros_lt_of_lt hu ht hlt).not_gt

theorem micros_le_iff {t u : Stamp} (ht : t.HasDate) (hu : u.HasDate) :
    t.micros ≤ u.micros ↔ t ≤ u := by
  rw [← not_lt, ← not_lt, micros_lt_iff hu ht]

/-- The text of an instant; `none` is an `OverflowError`. -/
def ofMicros (total : ℤ) : Option Stamp :=
  let days := total / 86400000000
  let clock := (total % 86400000000).toNat
  if h : 0 < days ∧ days ≤ maxOrdinal then
    have hpos : 1 ≤ days.toNat := by omega
    have hdate := toOrdinal_fromOrdinal hpos
    some
      { year := (fromOrdinal days.toNat).1
        month := (fromOrdinal days.toNat).2.1
        day := (fromOrdinal days.toNat).2.2
        hour := clock / 3600000000
        minute := clock / 60000000 % 60
        second := clock / 1000000 % 60
        microsecond := clock % 1000000
        year_le := year_le_of_toOrdinal_le hdate.2 (by omega)
        month_le := hdate.2.month_le
        day_le := hdate.2.day_le_31
        hour_lt := by omega
        minute_lt := by omega
        second_lt := by omega
        microsecond_lt := by omega }
  else none

variable {total : ℤ}

/-- **The text of an instant is of that instant.** -/
theorem micros_ofMicros {t : Stamp} (h : ofMicros total = some t) :
    t.micros = total ∧ t.HasDate := by
  unfold ofMicros at h
  dsimp only at h
  split_ifs at h with hdays
  have hpos : 1 ≤ (total / 86400000000).toNat := by omega
  obtain ⟨hcnt, hdate⟩ := toOrdinal_fromOrdinal hpos
  cases h
  refine ⟨?_, hdate⟩
  have hck : ∀ n < 86400000000, ((n / 3600000000 * 60 + n / 60000000 % 60) * 60 +
      n / 1000000 % 60) * 1000000 + n % 1000000 = n := by omega
  rw [micros, hcnt, clock, hck _ (by omega)]
  omega

/-- There is a text for the days of the years 1 to 9999. -/
theorem ofMicros_eq_none_iff : ofMicros total = none ↔
    total < 86400000000 ∨ (maxOrdinal + 1) * 86400000000 ≤ total := by
  unfold ofMicros
  dsimp only
  split_ifs with hdays
  · refine iff_of_false id ?_
    generalize maxOrdinal = days at hdays
    omega
  · refine iff_of_true rfl ?_
    generalize maxOrdinal = days at hdays
    omega

end Stamp

/-! ### Points in time with an offset -/

/-- A `datetime`. -/
structure DateTime where
  stamp : Stamp
  /-- Its offset from UTC in microseconds; `none` if it is naive. -/
  utcoffset : Option ℤ
  hasDate : stamp.HasDate

namespace DateTime

def micros (d : DateTime) : ℤ := d.stamp.micros - d.utcoffset.getD 0

/-- `replace(tzinfo=UTC)` if it is naive, and else `astimezone(UTC)`. -/
def toUtc (d : DateTime) : Option Stamp :=
  match d.utcoffset with
  | none => some d.stamp
  | some offset => Stamp.ofMicros (d.stamp.micros - offset)

/-- `normalize_iso_utc`; `none` is an `OverflowError`. -/
def normalizeIsoUtc (d : DateTime) : Option String := d.toUtc.map Py.normalizeIsoUtc

/-- **The years 1 to 9999**, in UTC. -/
def InRange (d : DateTime) : Prop :=
  d.utcoffset.isSome → 86400000000 ≤ d.micros ∧ d.micros < (maxOrdinal + 1) * 86400000000

variable {d : DateTime}

theorem normalizeIsoUtc_eq_none_iff : d.normalizeIsoUtc = none ↔ ¬ d.InRange := by
  rw [normalizeIsoUtc, map_eq_none_iff, toUtc, InRange, micros]
  cases d.utcoffset with
  | none => simp
  | some offset =>
    simp only [Stamp.ofMicros_eq_none_iff, getD_some, isSome_some, true_imp_iff]
    omega

/-- **The offset is subtracted.** -/
theorem micros_toUtc {t : Stamp} (h : d.toUtc = some t) :
    t.micros = d.micros ∧ t.HasDate := by
  unfold toUtc at h
  unfold micros
  split at h
  · next hnaive =>
    cases h
    rw [hnaive, getD_none, Int.sub_zero]
    exact ⟨rfl, d.hasDate⟩
  · next offset hoff =>
    rw [hoff, getD_some]
    exact Stamp.micros_ofMicros h

/-- **A text compares with that of a `datetime` as the instants do.** -/
theorem normalizeIsoUtc_le_iff {text : String} (h : d.normalizeIsoUtc = some text)
    {t : Stamp} (ht : t.HasDate) :
    (text ≤ Py.normalizeIsoUtc t ↔ d.micros ≤ t.micros) ∧
      (Py.normalizeIsoUtc t ≤ text ↔ t.micros ≤ d.micros) := by
  obtain ⟨u, hu, rfl⟩ := map_eq_some_iff.mp h
  obtain ⟨hmic, hdate⟩ := micros_toUtc hu
  rw [← hmic, Stamp.micros_le_iff hdate ht, Stamp.micros_le_iff ht hdate]
  exact ⟨Py.normalizeIsoUtc_le_iff, Py.normalizeIsoUtc_le_iff⟩

end DateTime

end ArchonSearch.Py
