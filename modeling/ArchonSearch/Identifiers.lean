import Mathlib.Data.List.Infix
import ArchonSearch.Acl

/-!
# The names of namespaces and collections

The two validators through which every name comes before a table is named after it. They take the
same characters; those of the graph tables and of the namespaces also refuse what would blur the
`__` between the two names of a table (`validateSegmentSafe`).
-/

namespace ArchonSearch.Identifiers

open Py

variable (isPrintable : Char → Bool)

/-- `_COLLECTION_RE.fullmatch`, of the same expression as `_NAMESPACE_RE`. -/
def collectionRe (name : String) : Bool := Acl.namespaceRe name

/-- `is_valid_collection_name`. -/
def isValidCollectionName (name : String) : Bool := collectionRe name

/-- `SearchStore._validate_collection`. -/
def validateStoreCollection (collection : String) : Except String Unit :=
  if isValidCollectionName collection then .ok ()
  else .error ("Invalid collection name: " ++ reprStr isPrintable collection ++
    " — must start with alphanumeric, contain only [a-zA-Z0-9_-], max 64 chars")

/-- `_validate_segment_safe`. -/
def validateSegmentSafe (name label : String) : Except String Unit :=
  if name.toList.getLast? = some '_' then
    .error ("Invalid " ++ label ++ " " ++ reprStr isPrintable name ++ ": must not end with '_'")
  else if ['_', '_'] <:+: name.toList then
    .error ("Invalid " ++ label ++ " " ++ reprStr isPrintable name ++
      ": must not contain consecutive underscores '__'")
  else .ok ()

/-- `_validate_namespace`. -/
def validateNamespace (name : String) : Except String Unit :=
  if name = "deny-all" then
    .error "Namespace name 'deny-all' is reserved and cannot be used."
  else if !Acl.namespaceRe name then
    .error ("Invalid namespace " ++ reprStr isPrintable name ++
      ": must match ^[a-zA-Z0-9][a-zA-Z0-9_-]\x7b0,63\x7d$")
  else validateSegmentSafe isPrintable name "namespace"

/-- `GraphStore._validate_collection`. -/
def validateGraphCollection (collection : String) : Except String Unit :=
  if !collectionRe collection then
    .error ("Invalid collection name " ++ reprStr isPrintable collection ++
      ": must match ^[a-zA-Z0-9][a-zA-Z0-9_-]\x7b0,63\x7d$")
  else validateSegmentSafe isPrintable collection "collection name"

variable {isPrintable} {name label : String}

theorem validateStoreCollection_eq_ok :
    validateStoreCollection isPrintable name = .ok () ↔ isValidCollectionName name = true := by
  unfold validateStoreCollection
  split <;> simp_all

theorem validateSegmentSafe_eq_ok : validateSegmentSafe isPrintable name label = .ok () ↔
    name.toList.getLast? ≠ some '_' ∧ ¬ ['_', '_'] <:+: name.toList := by
  unfold validateSegmentSafe
  split_ifs <;> simp_all

theorem validateNamespace_eq_ok : validateNamespace isPrintable name = .ok () ↔
    name ≠ "deny-all" ∧ Acl.namespaceRe name = true ∧
      name.toList.getLast? ≠ some '_' ∧ ¬ ['_', '_'] <:+: name.toList := by
  unfold validateNamespace
  split_ifs <;> simp_all [validateSegmentSafe_eq_ok]

theorem validateGraphCollection_eq_ok : validateGraphCollection isPrintable name = .ok () ↔
    collectionRe name = true ∧ name.toList.getLast? ≠ some '_' ∧ ¬ ['_', '_'] <:+: name.toList := by
  unfold validateGraphCollection
  split_ifs <;> simp_all [validateSegmentSafe_eq_ok]

end ArchonSearch.Identifiers
