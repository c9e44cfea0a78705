import Mathlib.Algebra.GroupWithZero.Nat
import Mathlib.Data.String.Basic

/-!
# Points in time, as text

The tables keep points in time as text of a fixed width, `YYYY-MM-DDTHH:MM:SS.ffffffZ`
(`normalizeIsoUtc`), and compare them as text. Numbers of one width compare as their digits do, and
fields of fixed widths one after the other as the list of the fields, so the text of an earlier
point in time is less (`normalizeIsoUtc_lt_iff`).

Adding seconds goes by the ordinal of the day, as `datetime` does it (`Stamp.addSeconds`). No two
colons stand next to each other in such a text, so it can be told from what follows it after two
colons (`splitAtColons_normalizeIsoUtc`).
-/

namespace ArchonSearch.Py

open List

/-! ### Digits -/

def digitChar (n : ℕ) : Char := Char.ofNat (48 + n % 10)

def digits : ℕ → ℕ → List Char
  | 0, _ => []
  | width + 1, n => digits width (n / 10) ++ [digitChar n]

@[simp] theorem length_digits (width n : ℕ) : (digits width n).length = width := by
  induction width generalizing n with
  | zero => rfl
  | succ width ih => simp [digits, ih]

theorem digitChar_cases : ∀ n m : Fin 10, (digitChar n < digitChar m ↔ n < m) ∧
    (digitChar n = digitChar m ↔ n = m) ∧ digitChar n ≠ ':' := by
  decide

theorem digitChar_mod (n : ℕ) : digitChar (n % 10) = digitChar n := by
  rw [digitChar, digitChar, Nat.mod_mod]

theorem digitChar_ne_colon (n : ℕ) : digitChar n ≠ ':' := by
  rw [← digitChar_mod]
  exact (digitChar_cases ⟨n % 10, Nat.mod_lt _ (by decide)⟩ 0).2.2

theorem digitChar_lt_iff (n m : ℕ) : digitChar n < digitChar m ↔ n % 10 < m % 10 := by
  rw [← digitChar_mod n, ← digitChar_mod m]
  exact (digitChar_cases ⟨n % 10, Nat.mod_lt _ (by decide)⟩ ⟨m % 10, Nat.mod_lt _ (by decide)⟩).1

theorem digitChar_inj (n m : ℕ) : digitChar n = digitChar m ↔ n % 10 = m % 10 := by
  rw [← digitChar_mod n, ← digitChar_mod m]
  simpa using (digitChar_cases ⟨n % 10, Nat.mod_lt _ (by decide)⟩
    ⟨m % 10, Nat.mod_lt _ (by decide)⟩).2.1

/-- What begins with texts of one length compares as they do, and then as the rest. -/
theorem append_lt_append_iff {l l' r r' : List Char} (h : l.length = l'.length) :
    l ++ r < l' ++ r' ↔ l < l' ∨ l = l' ∧ r < r' := by
  induction l generalizing l' with
  | nil =>
    obtain rfl := length_eq_zero_iff.mp h.symm
    simp
  | cons c l ih =>
    cases l' with
    | nil => cases h
    | cons c' l' =>
      rw [cons_append, cons_append, cons_lt_cons_iff, cons_lt_cons_iff,
        ih (Nat.succ.inj h), List.cons.injEq]
      tauto

theorem digits_inj {width n m : ℕ} (hn : n < 10 ^ width) (hm : m < 10 ^ width) :
    digits width n = digits width m ↔ n = m := by
  refine ⟨fun h => ?_, fun h => h ▸ rfl⟩
  induction width generalizing n m with
  | zero =>
    rw [pow_zero, Nat.lt_one_iff] at hn hm
    rw [hn, hm]
  | succ width ih =>
    obtain ⟨hdig, hl⟩ := append_inj h (by simp)
    have hdiv : n / 10 = m / 10 := ih (by omega) (by omega) hdig
    have hmod := (digitChar_inj n m).mp (head_eq_of_cons_eq hl)
    omega

/-- **Numbers of one width compare as their digits do.** -/
theorem digits_lt_iff {width n m : ℕ} (hn : n < 10 ^ width) (hm : m < 10 ^ width) :
    digits width n < digits width m ↔ n < m := by
  induction width generalizing n m with
  | zero =>
    rw [pow_zero, Nat.lt_one_iff] at hn hm
    simp [digits, hn, hm]
  | succ width ih =>
    have hn' : n / 10 < 10 ^ width := by omega
    have hm' : m / 10 < 10 ^ width := by omega
    rw [digits, digits, append_lt_append_iff (by simp), ih hn' hm', digits_inj hn' hm',
      cons_lt_cons_iff, digitChar_lt_iff]
    simp only [not_lt_nil, and_false, or_false]
    omega

/-! ### Fields of fixed widths -/

def formatFields : List (ℕ × Char) → List ℕ → List Char
  | (width, sep) :: layout, n :: fields => digits width n ++ sep :: formatFields layout fields
  | _, _ => []

def Fits (layout : List (ℕ × Char)) (fields : List ℕ) : Prop :=
  List.Forall₂ (fun field n => n < 10 ^ field.1) layout fields

/-- **Fields of fixed widths compare as lists.** -/
theorem formatFields_lt_iff {layout : List (ℕ × Char)} {fields fields' : List ℕ}
    (h : Fits layout fields) (h' : Fits layout fields') :
    formatFields layout fields < formatFields layout fields' ↔ fields < fields' := by
  induction h generalizing fields' with
  | nil =>
    cases h'
    simp [formatFields]
  | @cons field n layout fields hn h ih =>
    cases h' with
    | @cons _ m _ fields' hm h' =>
      rw [formatFields, formatFields, append_lt_append_iff (by simp), digits_lt_iff hn hm,
        digits_inj hn hm, cons_lt_cons_iff, ih h', cons_lt_cons_iff]
      simp

/-! ### Points in time -/

/-- A `datetime` in UTC. -/
structure Stamp where
  (year month day hour minute second microsecond : ℕ)
  year_le : year ≤ 9999
  month_le : month ≤ 12
  day_le : day ≤ 31
  hour_lt : hour < 24
  minute_lt : minute < 60
  second_lt : second < 60
  microsecond_lt : microsecond < 1000000

def Stamp.fields (t : Stamp) : List ℕ :=
  [t.year, t.month, t.day, t.hour, t.minute, t.second, t.microsecond]

theorem Stamp.fields_injective : Function.Injective Stamp.fields := by
  rintro ⟨⟩ ⟨⟩ h
  obtain ⟨rfl, rfl, rfl, rfl, rfl, rfl, rfl, -⟩ := h
  rfl

instance : LinearOrder Stamp := LinearOrder.lift' Stamp.fields Stamp.fields_injective

/-- `%Y-%m-%dT%H:%M:%S.%fZ`. -/
def isoLayout : List (ℕ × Char) :=
  [(4, '-'), (2, '-'), (2, 'T'), (2, ':'), (2, ':'), (2, '.'), (6, 'Z')]

/-- `normalize_iso_utc` of a `datetime`. -/
def normalizeIsoUtc (t : Stamp) : String := String.ofList (formatFields isoLayout t.fields)

theorem Stamp.fits (t : Stamp) : Fits isoLayout t.fields := by
  have hyear := t.year_le
  have hmon := t.month_le
  have hday := t.day_le
  have hhour := t.hour_lt
  have hmin := t.minute_lt
  have hsec := t.second_lt
  have hmic := t.microsecond_lt
  unfold Fits isoLayout fields
  simp only [forall₂_cons]
  exact ⟨by omega, by omega, by omega, by omega, by omega, by omega, by omega, .nil⟩

/-- **The text of an earlier point in time is less.** -/
theorem normalizeIsoUtc_lt_iff {t u : Stamp} : normalizeIsoUtc t < normalizeIsoUtc u ↔ t < u := by
  rw [String.lt_iff_toList_lt, normalizeIsoUtc, normalizeIsoUtc, String.toList_ofList,
    String.toList_ofList, formatFields_lt_iff t.fits u.fits]
  rfl

theorem normalizeIsoUtc_le_iff {t u : Stamp} : normalizeIsoUtc t ≤ normalizeIsoUtc u ↔ t ≤ u := by
  rw [← not_lt, ← not_lt, normalizeIsoUtc_lt_iff]

theorem normalizeIsoUtc_injective : Function.Injective normalizeIsoUtc := fun _ _ h =>
  le_antisymm (normalizeIsoUtc_le_iff.mp h.le) (normalizeIsoUtc_le_iff.mp h.ge)

/-! ### Later points in time -/

/-- `_is_leap`. -/
def isLeap (year : ℕ) : Bool := year % 4 = 0 && (year % 100 ≠ 0 || year % 400 = 0)

/-- `_days_before_year`. -/
def daysBeforeYear (year : ℕ) : ℕ :=
  (year - 1) * 365 + (year - 1) / 4 - (year - 1) / 100 + (year - 1) / 400

/-- `_days_in_month`. -/
def daysInMonth (year month : ℕ) : ℕ :=
  if month = 2 && isLeap year then 29
  else [0, 31, 28, 31, 30, 31, 30, 31, 31, 30, 31, 30, 31].getD month 0

/-- `_days_before_month`. -/
def daysBeforeMonth (year month : ℕ) : ℕ :=
  ((List.range month).map (daysInMonth year)).sum

/-- `_ymd2ord`. -/
def toOrdinal (year month day : ℕ) : ℕ :=
  daysBeforeYear year + daysBeforeMonth year month + day

/-- `_ord2ymd`: the year by cycles of 400, 100 and 4 years, and the month by a guess that is at
most one too great. -/
def fromOrdinal (ordinal : ℕ) : ℕ × ℕ × ℕ :=
  let n := ordinal - 1
  let n400 := n / 146097
  let n := n % 146097
  let n100 := n / 36524
  let n := n % 36524
  let n4 := n / 1461
  let n := n % 1461
  let n1 := n / 365
  let n := n % 365
  let year := n400 * 400 + 1 + n100 * 100 + n4 * 4 + n1
  if n1 = 4 ∨ n100 = 4 then (year - 1, 12, 31)
  else
    let month := (n + 50) / 32
    let month := if n < daysBeforeMonth year month then month - 1 else month
    (year, month, n - daysBeforeMonth year month + 1)

/-- `datetime + timedelta(seconds=…)`; `none` is an `OverflowError`. -/
def Stamp.addSeconds (t : Stamp) (seconds : ℤ) : Option Stamp :=
  let total := ((t.hour * 3600 + t.minute * 60 + t.second : ℕ) : ℤ) + seconds
  let ordinal := (toOrdinal t.year t.month t.day : ℤ) + total / 86400
  let clock := (total % 86400).toNat
  let date := fromOrdinal ordinal.toNat
  if h : 0 < ordinal ∧ date.1 ≤ 9999 ∧ date.2.1 ≤ 12 ∧ date.2.2 ≤ 31 then
    some
      { year := date.1
        month := date.2.1
        day := date.2.2
        hour := clock / 3600
        minute := clock / 60 % 60
        second := clock % 60
        microsecond := t.microsecond
        year_le := h.2.1
        month_le := h.2.2.1
        day_le := h.2.2.2
        hour_lt := by omega
        minute_lt := by omega
        second_lt := by omega
        microsecond_lt := t.microsecond_lt }
  else none

/-! ### Two colons -/

/-- `text.find("::")`, as the texts before and after it. -/
def splitAtColons : List Char → Option (List Char × List Char)
  | ':' :: ':' :: rest => some ([], rest)
  | c :: rest => (splitAtColons rest).map fun found => (c :: found.1, found.2)
  | [] => none

theorem splitAtColons_cons {c : Char} (h : c ≠ ':') (rest : List Char) :
    splitAtColons (c :: rest) = (splitAtColons rest).map fun found => (c :: found.1, found.2) := by
  rw [splitAtColons]
  exact fun rest' hc => absurd hc h

theorem splitAtColons_colon {c : Char} (h : c ≠ ':') (rest : List Char) :
    splitAtColons (':' :: c :: rest) =
      (splitAtColons (c :: rest)).map fun found => (':' :: found.1, found.2) := by
  rw [splitAtColons]
  exact fun rest' _ hrs => absurd (head_eq_of_cons_eq hrs) h

/-- **A point in time is told from what follows it.** -/
theorem splitAtColons_normalizeIsoUtc (t : Stamp) (rest : List Char) :
    splitAtColons ((normalizeIsoUtc t).toList ++ ':' :: ':' :: rest) =
      some ((normalizeIsoUtc t).toList, rest) := by
  have hdig := digitChar_ne_colon
  have hcons (n : ℕ) (l : List Char) := splitAtColons_cons (hdig n) l
  have hcol (n : ℕ) (l : List Char) := splitAtColons_colon (hdig n) l
  have hdash (l : List Char) : splitAtColons ('-' :: l) = _ := splitAtColons_cons (by decide) l
  have hT (l : List Char) : splitAtColons ('T' :: l) = _ := splitAtColons_cons (by decide) l
  have hdot (l : List Char) : splitAtColons ('.' :: l) = _ := splitAtColons_cons (by decide) l
  have hZ (l : List Char) : splitAtColons ('Z' :: l) = _ := splitAtColons_cons (by decide) l
  rw [normalizeIsoUtc, String.toList_ofList]
  simp only [isoLayout, Stamp.fields, formatFields, digits, nil_append, cons_append,
    hcons, hcol, hdash, hT, hdot, hZ]
  rfl

end ArchonSearch.Py
