import Mathlib.Data.Rat.Defs

/-!
# JSON values

What `json.loads` returns and `json.dump` writes. Numbers are kept as Python keeps them:
an integer literal is an `int`, any other literal a `float`, here a rational – the
non-standard literals for infinities and for not-a-number are outside the model. An
object is the list of its members; `json.loads` never repeats a name in one.

A value can be a dictionary key when it is a scalar (`Scalar`), and two scalars are the same key
when Python calls them equal, which is coarser than being the same value: `True`, `1` and `1.0` are
one key (`Scalar.key`).
-/

namespace ArchonSearch.Py

open List

inductive Json where
  | null
  /-- `true` or `false`. -/
  | bool : Bool → Json
  | int : ℤ → Json
  | float : ℚ → Json
  | str : String → Json
  | arr : List Json → Json
  | obj : List (String × Json) → Json

abbrev Row := List (String × Json)

inductive Scalar where
  /-- `None`. -/
  | null
  | bool : Bool → Scalar
  | int : ℤ → Scalar
  | float : ℚ → Scalar
  | str : String → Scalar

/-- The equality class of a hashable value under Python's `==`. -/
inductive Key where
  | none
  /-- A number; a `bool` is one. -/
  | num : ℚ → Key
  | str : String → Key
  deriving DecidableEq

namespace Scalar

def toJson : Scalar → Json
  | null => .null
  | bool b => .bool b
  | int n => .int n
  | float q => .float q
  | str s => .str s

def key : Scalar → Key
  | null => .none
  | bool b => .num (if b then 1 else 0)
  | int n => .num n
  | float q => .num q
  | str s => .str s

end Scalar

def Json.scalar? : Json → Option Scalar
  | .null => some .null
  | .bool b => some (.bool b)
  | .int n => some (.int n)
  | .float q => some (.float q)
  | .str s => some (.str s)
  | _ => none

@[simp] theorem Scalar.scalar?_toJson (s : Scalar) : s.toJson.scalar? = some s := by
  cases s <;> rfl

/-- `bool(value)`. -/
def Json.truthy : Json → Bool
  | .null => false
  | .bool b => b
  | .int n => n != 0
  | .float q => q != 0
  | .str s => s != ""
  | .arr items => !items.isEmpty
  | .obj fields => !fields.isEmpty

/-- `Enum(value)`: the member of an enumeration of strings with this value. -/
def enumOf {α : Type*} (members : List α) (value : α → String) : Json → Option α
  | .str s => members.find? fun a => value a == s
  | _ => none

/-- `value in strings`, for a set of strings: an unhashable value raises. -/
def memStrings (strings : List String) : Json → Option Bool
  | .str s => some (strings.contains s)
  | .arr _ => none
  | .obj _ => none
  | _ => some false

theorem memStrings_eq_true_iff {strings : List String} {v : Json} :
    memStrings strings v = some true ↔ ∃ s ∈ strings, v = .str s := by
  cases v <;> simp [memStrings]

/-! ### Rows -/

/-- `row.get(k, default)`. -/
def Row.getD (row : Row) (k : String) (default : Json) : Json := (row.lookup k).getD default

/-- `row[k] = v`. -/
def Row.set : Row → String → Json → Row
  | [], k, v => [(k, v)]
  | e :: row, k, v => if e.1 = k then (k, v) :: row else e :: Row.set row k v

theorem Row.lookup_set (row : Row) (k k' : String) (v : Json) :
    (row.set k v).lookup k' = if k' = k then some v else row.lookup k' := by
  induction row with
  | nil => by_cases hk : k' = k <;> simp [Row.set, hk]
  | cons e row ih =>
    rw [Row.set]
    by_cases he : e.1 = k
    · subst he
      rw [if_pos rfl, lookup_cons, lookup_cons]
      by_cases hk : k' = e.1
      · simp [hk]
      · have hne : (k' == e.1) = false := beq_eq_false_iff_ne.mpr hk
        simp [hk, hne]
    · rw [if_neg he, lookup_cons, lookup_cons, ih]
      by_cases hk : k' = k
      · have hne : (k == e.1) = false := beq_eq_false_iff_ne.mpr (Ne.symm he)
        simp [hk, hne]
      · simp [hk]

theorem Row.getD_set (row : Row) (k k' : String) (v default : Json) :
    (row.set k v).getD k' default = if k' = k then v else row.getD k' default := by
  rw [Row.getD, Row.lookup_set]
  split_ifs <;> rfl

def optionalField (k : String) (v : Option Json) : Row :=
  match v with
  | none => []
  | some v => [(k, v)]

theorem lookup_optionalField (k k' : String) (v : Option Json) :
    (optionalField k v).lookup k' = if k' = k then v else none := by
  cases v with
  | none => simp [optionalField]
  | some v =>
    by_cases h : k' = k
    · simp [optionalField, h]
    · have hne : (k' == k) = false := by simpa using h
      simp [optionalField, lookup_cons, hne, h]

theorem mem_optionalField {k : String} {v : Option Json} {e : String × Json}
    (h : e ∈ optionalField k v) : e.1 = k := by
  cases v with
  | none => cases h
  | some v => exact congrArg Prod.fst (mem_singleton.mp h)

end ArchonSearch.Py
